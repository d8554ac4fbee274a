import Minisqlite.Export
import Mathlib.Data.List.Forall2

/-!
# The diagnostic export keeps secrets

A statement about two stores. Their rows correspond, and a `Leeway` says how far a row
may differ from the one that corresponds to it. By default the export hides payloads and
what else is secret, but not how long it is. Lease tokens it hides always.

1. `Leeway.Hidden`: what the export reads of a row is in what the leeway leaves alone.
2. `stats_eq`, `diagnosticExport_eq`: the same statistics and the same lines.
3. `export_noninterference`: the same text.
-/

namespace Minisqlite

open Tables Keyset

/-- How far a row may differ from the row that corresponds to it: not at all, unless
said otherwise. -/
structure Leeway where
  transaction : TransactionRow → TransactionRow → Prop := fun a b => b = a
  event : EventRow → EventRow → Prop := fun a b => b = a
  entry : ProjectionEntryRow → ProjectionEntryRow → Prop := fun a b => b = a
  job : JobRow → JobRow → Prop := fun a b => b = a
  receipt : ClaimReceiptRow → ClaimReceiptRow → Prop := fun a b => b = a

namespace Leeway

/-- The rows may differ in everything that is secret, but for its length. The digest of
the batch may differ as well, since it depends on the secrets. -/
def secrets : Leeway where
  transaction a b := ∃ metadata requestDigest, b = { a with metadata, requestDigest }
  event a b := ∃ payload metadata, payload.length = a.event.payload.length ∧
    b = { a with event := { a.event with payload, metadata } }
  entry a b := ∃ value, value.length = a.value.length ∧ b = { a with value }
  job a b := ∃ payload idempotencyKey resultDigest errorSummary leaseToken,
    payload.length = a.spec.payload.length ∧
    errorSummary.map String.utf8ByteSize = a.errorSummary.map String.utf8ByteSize ∧
    b = { a with
      spec := { a.spec with payload, idempotencyKey }, resultDigest, errorSummary, leaseToken }
  receipt a b := ∃ leaseToken, b = { a with leaseToken }

/-- The rows may differ in their lease tokens. -/
def leaseTokens : Leeway where
  job a b := ∃ leaseToken, b = { a with leaseToken }
  receipt a b := ∃ leaseToken, b = { a with leaseToken }

end Leeway

/-- The stores differ only where there is leeway. -/
structure DifferOnlyIn (leeway : Leeway) (file : StoreFile) (db : Db) (file' : StoreFile)
    (db' : Db) : Prop where
  fileSizeBytes : file.fileSizeBytes = file'.fileSizeBytes
  migrationVersion : file.migrationVersion = file'.migrationVersion
  transactions : List.Forall₂ leeway.transaction db.transactions.rows db'.transactions.rows
  events : List.Forall₂ leeway.event db.events.rows db'.events.rows
  streams : db.streams.rows = db'.streams.rows
  projectionMeta : db.projectionMeta.rows = db'.projectionMeta.rows
  projectionEntries : List.Forall₂
    (fun a b => file.entryRowid a = file'.entryRowid b ∧ leeway.entry a b)
    db.projectionEntries.rows db'.projectionEntries.rows
  jobs : List.Forall₂ leeway.job db.jobs.rows db'.jobs.rows
  queueCursors : db.queueCursors.rows = db'.queueCursors.rows
  activePartitions : db.activePartitions.rows = db'.activePartitions.rows
  claimReceipts : List.Forall₂
    (fun a b => file.receiptRowid a = file'.receiptRowid b ∧ leeway.receipt a b)
    db.claimReceipts.rows db'.claimReceipts.rows

/-! ## One row -/

/-- What the export reads of a transaction. -/
def TransactionRow.exported (row : TransactionRow) : Int64 × Id × Int64 × String :=
  (row.transactionSequence, row.transactionId, row.committedAtMs, row.record)

/-- What the export reads of a job. -/
def JobRow.exported (includePayloads : Bool) (job : JobRow) :
    Int64 × JobState × Option Int64 × Id × String :=
  (job.enqueueSequence, job.state, job.leaseExpiresAtMs, job.updatedTransactionId,
    job.record includePayloads)

/-- The export does not look at what may differ. -/
structure Leeway.Hidden (leeway : Leeway) (includePayloads : Bool) : Prop where
  transaction : ∀ a b, leeway.transaction a b → a.exported = b.exported
  event : ∀ a b, leeway.event a b → (a.globalSequence, a.record includePayloads) =
    (b.globalSequence, b.record includePayloads)
  entry : ∀ a b, leeway.entry a b → a.record includePayloads = b.record includePayloads
  job : ∀ a b, leeway.job a b → a.exported includePayloads = b.exported includePayloads
  receipt : ∀ a b, leeway.receipt a b → a.record = b.record

/-- Without payloads, the export does not look at secrets. -/
theorem secrets_hidden : Leeway.secrets.Hidden false where
  transaction := by
    rintro a _ ⟨metadata, requestDigest, rfl⟩
    rfl
  event := by
    rintro a _ ⟨payload, metadata, hpayload, rfl⟩
    simp [EventRow.record, payloadFields, hpayload]
  entry := by
    rintro a _ ⟨value, hvalue, rfl⟩
    simp [ProjectionEntryRow.record, hvalue]
  job := by
    rintro a _ ⟨payload, idempotencyKey, resultDigest, errorSummary, leaseToken, hpayload,
      hsummary, rfl⟩
    have hlength : errorSummary.map (fun s => Int64.ofNat s.utf8ByteSize) =
        a.errorSummary.map fun s => Int64.ofNat s.utf8ByteSize := by
      have hmapped := congrArg (Option.map Int64.ofNat) hsummary
      rwa [Option.map_map, Option.map_map] at hmapped
    simp [JobRow.exported, JobRow.record, payloadFields, errorSummaryFields, hpayload, hlength]
  receipt := by
    rintro a _ ⟨leaseToken, rfl⟩
    rfl

/-- With payloads, it does not look at lease tokens. -/
theorem leaseTokens_hidden : Leeway.leaseTokens.Hidden true where
  transaction := by
    rintro a _ rfl
    rfl
  event := by
    rintro a _ rfl
    rfl
  entry := by
    rintro a _ rfl
    rfl
  job := by
    rintro a _ ⟨leaseToken, rfl⟩
    rfl
  receipt := by
    rintro a _ ⟨leaseToken, rfl⟩
    rfl

namespace RedactionLemmas

/-! ## One table -/

theorem map_eq {ρ τ : Type} {R : ρ → ρ → Prop} {f g : ρ → τ} {rows rows' : List ρ}
    (h : List.Forall₂ R rows rows') (hrow : ∀ a b, R a b → f a = g b) :
    rows.map f = rows'.map g := by
  have hmapped : List.Forall₂ Eq (rows.map f) (rows'.map g) :=
    List.forall₂_map_left_iff.mpr (List.forall₂_map_right_iff.mpr (h.imp hrow))
  rwa [List.forall₂_eq_eq_eq] at hmapped

variable {leeway : Leeway} {includePayloads : Bool} {file file' : StoreFile} {db db' : Db}
  (hidden : leeway.Hidden includePayloads) (differ : DifferOnlyIn leeway file db file' db')

include hidden differ

theorem transactions_eq : db.transactions.rows.map TransactionRow.exported =
    db'.transactions.rows.map TransactionRow.exported :=
  map_eq differ.transactions hidden.transaction

theorem jobs_eq : db.jobs.rows.map (JobRow.exported includePayloads) =
    db'.jobs.rows.map (JobRow.exported includePayloads) :=
  map_eq differ.jobs hidden.job

/-! ## Statistics -/

/-- The jobs in a state correspond. -/
theorem jobsIn_eq (state : JobState) :
    (db.jobsIn state).map (JobRow.exported includePayloads) =
      (db'.jobsIn state).map (JobRow.exported includePayloads) := by
  have hfilter : ∀ db : Db, (db.jobsIn state).map (JobRow.exported includePayloads) =
      (db.jobs.rows.map (JobRow.exported includePayloads)).filter
        fun exported => decide (exported.2.1 = state) := fun db => by
    rw [List.filter_map]
    rfl
  rw [hfilter, hfilter, jobs_eq hidden differ]

theorem jobsByState_eq : db.jobsByState = db'.jobsByState := by
  have hlength : ∀ state, (db.jobsIn state).length = (db'.jobsIn state).length := fun state => by
    simpa using congrArg List.length (jobsIn_eq hidden differ state)
  have hempty : ∀ state, (db.jobsIn state).isEmpty = (db'.jobsIn state).isEmpty := fun state => by
    rw [Bool.eq_iff_iff, List.isEmpty_iff_length_eq_zero, List.isEmpty_iff_length_eq_zero, hlength]
  simp only [Db.jobsByState, count, hlength, hempty]

/-- A transaction that a job names was committed at the same time in both stores. -/
theorem committedAtMs_eq (tid : Id) : (db.transaction tid).map TransactionRow.committedAtMs =
    (db'.transaction tid).map TransactionRow.committedAtMs := by
  have hfind : ∀ db : Db, (db.transaction tid).map TransactionRow.committedAtMs =
      ((db.transactions.rows.map TransactionRow.exported).find?
        fun exported => decide (exported.2.1 = tid)).map fun exported => exported.2.2.1 := by
    intro db
    rw [List.find?_map, Option.map_map]
    rfl
  rw [hfind, hfind, transactions_eq hidden differ]

theorem stats_eq : stats file db = stats file' db' := by
  have hleases : ((db.jobsIn .leased).filterMap JobRow.leaseExpiresAtMs) =
      (db'.jobsIn .leased).filterMap JobRow.leaseExpiresAtMs := by
    have h := congrArg (List.filterMap fun exported => exported.2.2.1)
      (jobsIn_eq hidden differ .leased)
    simpa [List.filterMap_map, Function.comp_def, JobRow.exported] using h
  have huncertain : ((db.jobsIn .uncertain).filterMap fun job =>
        (db.transaction job.updatedTransactionId).map TransactionRow.committedAtMs) =
      (db'.jobsIn .uncertain).filterMap fun job =>
        (db'.transaction job.updatedTransactionId).map TransactionRow.committedAtMs := by
    simp only [committedAtMs_eq hidden differ]
    have h := congrArg (List.filterMap fun exported =>
      (db'.transaction exported.2.2.2.1).map TransactionRow.committedAtMs)
      (jobsIn_eq hidden differ .uncertain)
    simpa [List.filterMap_map, Function.comp_def, JobRow.exported] using h
  simp only [stats, count, hleases, huncertain, jobsByState_eq hidden differ,
    differ.transactions.length_eq, differ.events.length_eq, differ.streams, differ.projectionMeta,
    differ.projectionEntries.length_eq, differ.activePartitions, differ.fileSizeBytes,
    differ.migrationVersion]

/-! ## Lines -/

theorem exportTransactions_eq (fuel : Nat) :
    exportTransactions fuel db = exportTransactions fuel db' := by
  refine pages_congr ?_ _ _ _
  have h := congrArg (List.map fun exported => (exported.1, exported.2.2.2))
    (transactions_eq hidden differ)
  simpa [Function.comp_def, TransactionRow.exported] using h

theorem exportEvents_eq (fuel : Nat) :
    exportEvents includePayloads fuel db = exportEvents includePayloads fuel db' :=
  pages_congr (map_eq differ.events hidden.event) _ _ _

theorem exportProjections_eq (fuel : Nat) : exportProjections file includePayloads fuel db =
    exportProjections file' includePayloads fuel db' := by
  have hentries := pages_congr (map_eq differ.projectionEntries fun a b h =>
    Prod.ext h.1 (hidden.entry a b h.2)) exportPageSize fuel 0
  have h := congrArg (Option.map ((ordered (fun row : ProjectionMetaRow => utf8 row.projection)
    db'.projectionMeta.rows).map ProjectionMetaRow.record ++ ·)) hentries
  rw [Option.map_map, Option.map_map] at h
  rw [exportProjections, differ.projectionMeta]
  exact h

theorem exportJobs_eq (fuel : Nat) :
    exportJobs includePayloads fuel db = exportJobs includePayloads fuel db' := by
  refine pages_congr ?_ _ _ _
  have h := congrArg (List.map fun exported => (exported.1, exported.2.2.2.2))
    (jobs_eq hidden differ)
  simpa [Function.comp_def, JobRow.exported] using h

theorem exportClaimReceipts_eq : exportClaimReceipts file db = exportClaimReceipts file' db' := by
  refine ordered_congr (map_eq differ.claimReceipts fun a b h => ?_)
  rw [h.1, hidden.receipt a b h.2]

theorem diagnosticExport_eq (fuel : Nat) : diagnosticExport file includePayloads fuel db =
    diagnosticExport file' includePayloads fuel db' := by
  simp only [diagnosticExport, exportLines, stats_eq hidden differ,
    exportTransactions_eq hidden differ, exportEvents_eq hidden differ, exportStreams,
    differ.streams, exportProjections_eq hidden differ, exportJobs_eq hidden differ,
    exportPartitions, differ.activePartitions, exportClaimReceipts_eq hidden differ]

theorem exports_eq : ∃ text, Exports file includePayloads db text ∧
    Exports file' includePayloads db' text := by
  obtain ⟨text, enough, htext⟩ := exports_total file includePayloads db
  exact ⟨text, ⟨enough, htext⟩, enough, fun fuel hfuel =>
    (diagnosticExport_eq hidden differ fuel).symm.trans (htext fuel hfuel)⟩

end RedactionLemmas

open RedactionLemmas

/-- Stores that differ only in secrets of the same length have the same export, and
stores that differ only in lease tokens have the same export with payloads. -/
theorem export_noninterference (file file' : StoreFile) (db db' : Db) :
    (DifferOnlyIn .secrets file db file' db' →
      ∃ text, Exports file false db text ∧ Exports file' false db' text) ∧
    (DifferOnlyIn .leaseTokens file db file' db' →
      ∃ text, Exports file true db text ∧ Exports file' true db' text) :=
  ⟨exports_eq secrets_hidden, exports_eq leaseTokens_hidden⟩

/-- A store with an event, a projection entry and a leased job. -/
def Sample.guarded (secret : UInt8) (leaseToken : BitVec 128) : Db where
  transactions := ⟨[{ (Sample.batch 10 0 []).row 1 with metadata := [secret] }],
    List.pairwise_singleton _ _, by simp [transactionsSchema]⟩
  events := ⟨[⟨1, .ofU128 10, 1, ⟨.ofU128 7, "s", "t", 1, 0, none, none, [secret], [secret]⟩⟩],
    List.pairwise_singleton _ _, by simp [eventsSchema]⟩
  streams := ⟨[⟨"s", 1⟩], List.pairwise_singleton _ _, by simp [Schema.keyed]⟩
  projectionMeta := ⟨[⟨"p", 1⟩], List.pairwise_singleton _ _, by simp [Schema.keyed]⟩
  projectionEntries := ⟨[⟨"p", [1], [secret]⟩], List.pairwise_singleton _ _, by simp [Schema.keyed]⟩
  jobs := ⟨[{ { Sample.spec .explicitlyIdempotent with payload := [secret] }.row 1 (.ofU128 10) with
      state := .leased, attempt := 1, leaseToken := some (.ofU128 leaseToken),
      workerId := some "worker", leaseExpiresAtMs := some 105 }],
    List.pairwise_singleton _ _, by simp [jobsSchema]; rfl⟩
  queueCursors := .empty
  activePartitions := ⟨[⟨"mail", "alice", 1⟩], List.pairwise_singleton _ _, by simp [Schema.keyed]⟩
  claimReceipts := ⟨[⟨.ofU128 10, Sample.jobId, .ofU128 leaseToken, 1, "worker", 105⟩],
    List.pairwise_singleton _ _, by simp [Schema.keyed]⟩

theorem export_noninterference_sample :
    (∃ text, Exports Sample.file false (Sample.guarded 1 20) text ∧
      Exports Sample.file false (Sample.guarded 2 30) text) ∧
    ∃ text, Exports Sample.file true (Sample.guarded 1 20) text ∧
      Exports Sample.file true (Sample.guarded 1 30) text := by
  constructor
  · refine (export_noninterference Sample.file Sample.file (Sample.guarded 1 20)
      (Sample.guarded 2 30)).1 ?_
    exact {
      fileSizeBytes := rfl
      migrationVersion := rfl
      transactions := .cons ⟨_, _, rfl⟩ .nil
      events := .cons ⟨_, _, by rfl, rfl⟩ .nil
      streams := rfl
      projectionMeta := rfl
      projectionEntries := .cons ⟨rfl, _, by rfl, rfl⟩ .nil
      jobs := .cons ⟨_, _, _, _, _, by rfl, by rfl, rfl⟩ .nil
      queueCursors := rfl
      activePartitions := rfl
      claimReceipts := .cons ⟨rfl, _, rfl⟩ .nil }
  · refine (export_noninterference Sample.file Sample.file (Sample.guarded 1 20)
      (Sample.guarded 1 30)).2 ?_
    exact {
      fileSizeBytes := rfl
      migrationVersion := rfl
      transactions := .cons rfl .nil
      events := .cons rfl .nil
      streams := rfl
      projectionMeta := rfl
      projectionEntries := .cons ⟨rfl, rfl⟩ .nil
      jobs := .cons ⟨_, rfl⟩ .nil
      queueCursors := rfl
      activePartitions := rfl
      claimReceipts := .cons ⟨rfl, _, rfl⟩ .nil }

end Minisqlite
