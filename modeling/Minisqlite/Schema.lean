import Mathlib.Order.Defs.LinearOrder
import Minisqlite.Types
import Minisqlite.Lib.Machine
import Minisqlite.Lib.Table

/-!
# The durable state

The tables of migrations 1 and 2, with their rows and constraints. Column
types follow the source: sequences and versions are stored as `i64`, although
the API hands them out as `u64`. States and effect modes are stored here as
themselves and not as their integer codes. Foreign keys are checked by the
statements that insert a child row (`requireTransaction`).

A failing statement is a `StorageError`; its text is SQLite's own and is not
modelled.
-/

namespace Minisqlite

open Tables Runs

/-! ## Statements that can fail -/

/-- `From<StorageError>`: the error types that `?` turns a failed statement into. -/
class FromStorage (ε : Type) where
  ofStorage : StorageError → ε

instance : FromStorage Error := ⟨.storage⟩

instance : FromStorage CommitError := ⟨.storage⟩

instance : FromStorage LeaseError := ⟨.storage⟩

/-- A statement inside an open transaction. -/
def execute {ε α : Type} [FromStorage ε] : Option α → Except ε α
  | some a => .ok a
  | none => .error (FromStorage.ofStorage (.sqlite "statement failed"))

theorem execute_ok {ε α : Type} [FromStorage ε] {result : Option α} {a : α} :
    (execute result : Except ε α) = .ok a ↔ result = some a := by
  cases result <;> simp [execute]

/-- `i64::checked_add`. -/
def checkedAddI64 (a b : Int64) : Option Int64 :=
  if Int64.minValue.toInt ≤ a.toInt + b.toInt ∧ a.toInt + b.toInt ≤ Int64.maxValue.toInt then
    some (a + b)
  else none

/-- `u64::checked_add`. -/
def checkedAddU64 (a b : UInt64) : Option UInt64 :=
  if a.toNat + b.toNat < 2 ^ 64 then some (a + b) else none

/-- `SELECT COALESCE(MAX(column), 0) + 1`: past the largest `i64` SQLite
answers with a REAL, which the `i64` read refuses. AUTOINCREMENT picks the next
rowid the same way. -/
def nextSequence (column : List Int64) : Option Int64 :=
  checkedAddI64 (column.max?.getD 0) 1

/-! ## Rows -/

structure TransactionRow where
  transactionId : Id
  transactionSequence : Int64
  committedAtMs : Int64
  correlationId : Option Id
  metadata : Bytes
  requestDigest : Bytes
  operationCount : Int64
deriving DecidableEq

structure EventRow where
  globalSequence : Int64
  transactionId : Id
  streamVersion : Int64
  event : Event
deriving DecidableEq

structure StreamRow where
  streamId : String
  currentVersion : Int64
deriving DecidableEq

structure ProjectionMetaRow where
  projection : String
  version : Int64
deriving DecidableEq

structure ProjectionEntryRow where
  projection : String
  key : Bytes
  value : Bytes
deriving DecidableEq

structure JobRow where
  spec : JobSpec
  enqueueSequence : Int64
  enqueueTransactionId : Id
  state : JobState
  attempt : UInt32
  leaseToken : Option Id
  workerId : Option String
  leaseExpiresAtMs : Option Int64
  retryAfterMs : Option Int64
  terminalAtMs : Option Int64
  resultDigest : Option Bytes
  errorSummary : Option String
  updatedTransactionId : Id
deriving DecidableEq

structure QueueCursorRow where
  queue : String
  lastPartitionKey : Option String
deriving DecidableEq

structure ActivePartitionRow where
  queue : String
  partitionKey : String
  firstActiveSequence : Int64
deriving DecidableEq

structure ClaimReceiptRow where
  transactionId : Id
  jobId : Id
  leaseToken : Id
  attempt : UInt32
  workerId : String
  leaseExpiresAtMs : Int64
deriving DecidableEq

/-! ## Constraints -/

/-- PRIMARY KEY `transaction_id`, UNIQUE `transaction_sequence`. -/
def transactionsSchema : Schema TransactionRow where
  clash a b :=
    decide (a.transactionId = b.transactionId) ||
      decide (a.transactionSequence = b.transactionSequence)

/-- PRIMARY KEY `global_sequence`, UNIQUE `event_id` and `(stream_id, stream_version)`. -/
def eventsSchema : Schema EventRow where
  clash a b :=
    decide (a.globalSequence = b.globalSequence) || decide (a.event.eventId = b.event.eventId) ||
      decide ((a.event.streamId, a.streamVersion) = (b.event.streamId, b.streamVersion))

abbrev streamsSchema : Schema StreamRow := .keyed StreamRow.streamId

abbrev projectionMetaSchema : Schema ProjectionMetaRow := .keyed ProjectionMetaRow.projection

abbrev projectionEntriesSchema : Schema ProjectionEntryRow := .keyed fun r => (r.projection, r.key)

/-- The CHECKs of migration 2: leased rows carry a full lease and no other row
carries any part of one, retry-wait rows carry a retry time, and terminal rows
carry a terminal timestamp. -/
def JobRow.check (job : JobRow) : Bool :=
  decide (0 < job.spec.maxAttempts) &&
    (decide (job.state ≠ .leased) ||
      job.leaseToken.isSome && job.workerId.isSome && job.leaseExpiresAtMs.isSome) &&
    (decide (job.state = .leased) ||
      job.leaseToken.isNone && job.workerId.isNone && job.leaseExpiresAtMs.isNone) &&
    (decide (job.state ≠ .retryWait) || job.retryAfterMs.isSome) &&
    job.state.isTerminal == job.terminalAtMs.isSome

/-- PRIMARY KEY `job_id`, UNIQUE `enqueue_sequence`. -/
def jobsSchema : Schema JobRow where
  clash a b :=
    decide (a.spec.jobId = b.spec.jobId) || decide (a.enqueueSequence = b.enqueueSequence)
  check := JobRow.check

abbrev queueCursorsSchema : Schema QueueCursorRow := .keyed QueueCursorRow.queue

abbrev activePartitionsSchema : Schema ActivePartitionRow :=
  .keyed fun r => (r.queue, r.partitionKey)

abbrev claimReceiptsSchema : Schema ClaimReceiptRow := .keyed fun r => (r.transactionId, r.jobId)

/-- The database file. -/
structure Db where
  transactions : Table transactionsSchema
  events : Table eventsSchema
  streams : Table streamsSchema
  projectionMeta : Table projectionMetaSchema
  projectionEntries : Table projectionEntriesSchema
  jobs : Table jobsSchema
  queueCursors : Table queueCursorsSchema
  activePartitions : Table activePartitionsSchema
  claimReceipts : Table claimReceiptsSchema

namespace Db

/-- A freshly migrated database. -/
def empty : Db where
  transactions := .empty
  events := .empty
  streams := .empty
  projectionMeta := .empty
  projectionEntries := .empty
  jobs := .empty
  queueCursors := .empty
  activePartitions := .empty
  claimReceipts := .empty

variable (db : Db)

/-- `SELECT … FROM transactions WHERE transaction_id = ?1`. -/
def transaction (transactionId : Id) : Option TransactionRow :=
  db.transactions.lookup TransactionRow.transactionId transactionId

/-- `SELECT … FROM jobs WHERE job_id = ?1`. -/
def job (jobId : Id) : Option JobRow := db.jobs.lookup (·.spec.jobId) jobId

/-- A child row's `REFERENCES transactions(transaction_id)`. -/
def requireTransaction (transactionId : Id) : Option Unit :=
  (db.transaction transactionId).map fun _ => ()

/-- A child row's `REFERENCES projection_meta(projection)`. -/
def requireProjection (projection : String) : Option Unit :=
  (db.projectionMeta.lookup ProjectionMetaRow.projection projection).map fun _ => ()

/-- `stream_version`, also `current_stream_version`: 0 when the stream does not exist. -/
def streamVersion (streamId : String) : UInt64 :=
  (((db.streams.lookup StreamRow.streamId streamId).map StreamRow.currentVersion).getD 0).toUInt64

/-- `projection_version`, `version_query`: 0 when the projection does not exist. -/
def projectionVersion (projection : String) : UInt64 :=
  (((db.projectionMeta.lookup ProjectionMetaRow.projection projection).map
    ProjectionMetaRow.version).getD 0).toUInt64

end Db

/-- SQLite's largest database has 2^48 bytes, and each row takes some of them. -/
structure Db.WithinFileLimit (db : Db) : Prop where
  transactions : db.transactions.rows.length < 2 ^ 48
  events : db.events.rows.length < 2 ^ 48
  activePartitions : db.activePartitions.rows.length < 2 ^ 48

theorem transactions_unique : Unique transactionsSchema TransactionRow.transactionId :=
  fun a b h => by simp [transactionsSchema, h]

theorem jobs_unique : Unique jobsSchema fun r => r.spec.jobId :=
  fun a b h => by simp [jobsSchema, h]

theorem jobs_unique_sequence : Unique jobsSchema JobRow.enqueueSequence :=
  fun a b h => by simp [jobsSchema, h]

/-! ## Sequences -/

theorem checkedAddI64_some {a b c : Int64} (h : checkedAddI64 a b = some c) :
    c.toInt = a.toInt + b.toInt := by
  unfold checkedAddI64 at h
  split at h
  · next hb =>
    cases h
    rw [Int64.toInt_add, Int.bmod_eq_of_le]
    · exact hb.1
    · exact Int.lt_of_le_of_lt hb.2 (by decide)
  · cases h

theorem checkedAddU64_some {a b c : UInt64} (h : checkedAddU64 a b = some c) :
    c.toNat = a.toNat + b.toNat := by
  unfold checkedAddU64 at h
  split at h
  · next hlt =>
    cases h
    rw [UInt64.toNat_add, Nat.mod_eq_of_lt hlt]
  · cases h

/-- A `u64` in the range of `i64` is stored as itself. -/
theorem toInt_toInt64 {n : UInt64} (h : n.toNat < 2 ^ 63) : n.toInt64.toInt = n.toNat := by
  rw [← Int64.toInt_toBitVec, UInt64.toBitVec_toInt64,
    BitVec.toInt_eq_toNat_of_lt (by simpa using by omega)]
  rfl

/-- A stored `i64` that the API hands out in the range of `i64` is itself. -/
theorem toInt_of_toUInt64 {n : Int64} (h : n.toUInt64.toNat < 2 ^ 63) :
    n.toInt = n.toUInt64.toNat := by
  rw [← toInt_toInt64 h, Int64.toInt64_toUInt64]

/-- The API hands out a stored `i64` that is not negative as itself. -/
theorem toNat_toUInt64 {n : Int64} (h : 0 ≤ n.toInt) : (n.toUInt64.toNat : Int) = n.toInt := by
  have hbits : n.toBitVec.toInt = n.toInt := Int64.toInt_toBitVec n
  rw [← hbits, BitVec.toInt_eq_toNat_cond] at h
  refine (toInt_of_toUInt64 (?_ : n.toBitVec.toNat < 2 ^ 63)).symm
  split at h <;> omega

/-- The larger of two machine integers is chosen by their order. -/
theorem lawfulOrderMax_of_ite {α : Type} [Max α] [LE α] [DecidableLE α] [Std.IsLinearOrder α]
    (hmax : ∀ a b : α, max a b = if a ≤ b then b else a) : Std.LawfulOrderMax α where
  max_eq_or a b := by
    rw [hmax]
    by_cases h : a ≤ b
    · exact .inr (if_pos h)
    · exact .inl (if_neg h)
  max_le_iff a b c := by
    rw [hmax]
    split
    · next hab => exact ⟨fun hbc => ⟨Std.le_trans hab hbc, hbc⟩, And.right⟩
    · next hab =>
      have hba : b ≤ a := Std.le_of_not_ge hab
      exact ⟨fun hac => ⟨hac, Std.le_trans hba hac⟩, And.left⟩

instance instLawfulOrderMaxInt64 : Std.LawfulOrderMax Int64 :=
  lawfulOrderMax_of_ite fun _ _ => rfl

instance instLawfulOrderMaxUInt32 : Std.LawfulOrderMax UInt32 :=
  lawfulOrderMax_of_ite fun _ _ => rfl

/-- A new sequence number is larger than all that are stored. -/
theorem lt_nextSequence {column : List Int64} {n : Int64} (h : nextSequence column = some n) :
    ∀ m ∈ column, m < n := by
  intro m hm
  have hn := checkedAddI64_some h
  cases hmax : column.max? with
  | none =>
    rw [List.max?_eq_none_iff.mp hmax] at hm
    cases hm
  | some top =>
    have htop : m ≤ top := (List.max?_eq_some_iff.mp hmax).2 m hm
    rw [hmax] at hn
    rw [Int64.lt_iff_toInt_lt]
    have := Int64.le_iff_toInt_le.mp htop
    have h1 : (1 : Int64).toInt = 1 := rfl
    simp only [Option.getD_some, h1] at hn
    omega

/-- The stored numbers are `1, …, n`, in order. -/
def Consecutive (column : List Int64) : Prop :=
  column.map Int64.toInt = (List.range column.length).map fun i : Nat => (i : Int) + 1

namespace Consecutive

theorem nil : Consecutive [] := rfl

theorem append {column : List Int64} (h : Consecutive column) {n : Int64}
    (hn : n.toInt = column.length + 1) : Consecutive (column ++ [n]) := by
  unfold Consecutive at *
  rw [List.map_append, h, List.length_append, List.length_singleton, List.range_succ,
    List.map_append]
  simp [hn]

theorem getElem {column : List Int64} (h : Consecutive column) {i : Nat} (hi : i < column.length) :
    column[i].toInt = (i : Int) + 1 := by
  have := congrArg (fun l : List Int => l[i]?) h
  simpa [hi] using this

/-- The numbers of a column without gaps fit an `i64`. -/
theorem length_lt {column : List Int64} (h : Consecutive column) : column.length < 2 ^ 63 := by
  rcases Nat.eq_zero_or_pos column.length with hzero | hpos
  · omega
  · have hlt := Nat.sub_lt hpos Nat.one_pos
    have hlast := h.getElem hlt
    have := Int64.toInt_lt column[column.length - 1]
    omega

theorem bounds {column : List Int64} (h : Consecutive column) {n : Int64} (hn : n ∈ column) :
    1 ≤ n.toInt ∧ n.toInt ≤ column.length := by
  obtain ⟨i, hi, rfl⟩ := List.getElem_of_mem hn
  rw [h.getElem hi]
  omega

/-- The largest number counts the column. -/
theorem max {column : List Int64} (h : Consecutive column) :
    ((column.max?).getD 0).toInt = column.length := by
  cases hmax : column.max? with
  | none => simp [List.max?_eq_none_iff.mp hmax]
  | some top =>
    obtain ⟨hmem, htop⟩ := List.max?_eq_some_iff.mp hmax
    obtain ⟨i, hi, rfl⟩ := List.getElem_of_mem hmem
    have hlast := Int64.le_iff_toInt_le.mp
      (htop _ (List.getElem_mem (Nat.sub_lt (Nat.zero_lt_of_lt hi) Nat.one_pos)))
    rw [h.getElem, h.getElem] at hlast
    rw [Option.getD_some, h.getElem]
    omega

/-- The next number of a column without gaps. -/
theorem next {column : List Int64} (hcol : Consecutive column) {k : Int64}
    (h : nextSequence column = some k) : k.toInt = column.length + 1 := by
  rw [checkedAddI64_some h, hcol.max]
  rfl

theorem pairwise {column : List Int64} (h : Consecutive column) : column.Pairwise (· < ·) := by
  have hlt : (column.map Int64.toInt).Pairwise (· < ·) := by
    rw [h, List.pairwise_map]
    exact List.pairwise_lt_range.imp fun hab => by omega
  exact (List.pairwise_map.mp hlt).imp Int64.lt_iff_toInt_lt.mpr

section Rows

variable {ρ : Type} {rows : List ρ} {key : ρ → Int64} {n : Nat} {row : ρ}

theorem key_getElem (h : Consecutive (rows.map key)) {i : Nat} (hi : i < rows.length) :
    (key rows[i]).toInt = (i : Int) + 1 := by
  have := h.getElem (i := i) (by simpa using hi)
  rwa [List.getElem_map] at this

theorem key_last (h : Consecutive (rows.map key)) (hne : rows ≠ []) :
    (key (rows.getLast hne)).toInt = rows.length := by
  have hlast := Nat.sub_lt (List.length_pos_iff.mpr hne) Nat.one_pos
  rw [List.getLast_eq_getElem, h.key_getElem hlast]
  omega

theorem of_prefix {rows' : List ρ} (h : Consecutive (rows.map key)) (hpre : rows' <+: rows) :
    Consecutive (rows'.map key) := by
  obtain ⟨rest, rfl⟩ := hpre
  unfold Consecutive at h ⊢
  rw [List.map_append, List.map_append, List.length_append, List.range_add, List.map_append] at h
  exact List.append_inj_left h (by simp)

/-- The first `n` rows are those up to number `n`. -/
theorem mem_take (h : Consecutive (rows.map key)) (hrow : row ∈ rows.take n) :
    (key row).toInt ≤ n := by
  obtain ⟨i, hi, rfl⟩ := List.mem_take_iff_getElem.mp hrow
  rw [h.key_getElem]
  omega

theorem mem_drop (h : Consecutive (rows.map key)) (hrow : row ∈ rows.drop n) :
    n < (key row).toInt := by
  obtain ⟨i, hi, rfl⟩ := List.mem_drop_iff_getElem.mp hrow
  rw [h.key_getElem]
  omega

/-- A filter that tells the first `n` rows from the others. -/
theorem filter_take (h : Consecutive (rows.map key)) {p : ρ → Bool}
    (hp : ∀ row ∈ rows, p row = true ↔ (key row).toInt ≤ n) : rows.filter p = rows.take n := by
  have htake : (rows.take n).filter p = rows.take n :=
    List.filter_eq_self.mpr fun row hrow =>
      (hp row (List.mem_of_mem_take hrow)).mpr (h.mem_take hrow)
  have hdrop : (rows.drop n).filter p = [] :=
    List.filter_eq_nil_iff.mpr fun row hrow hpass => by
      have := (hp row (List.mem_of_mem_drop hrow)).mp hpass
      have := h.mem_drop hrow
      omega
  conv_lhs => rw [← List.take_append_drop n rows]
  rw [List.filter_append, htake, hdrop, List.append_nil]

theorem filter_drop (h : Consecutive (rows.map key)) {p : ρ → Bool}
    (hp : ∀ row ∈ rows, p row = true ↔ n < (key row).toInt) : rows.filter p = rows.drop n := by
  have htake : (rows.take n).filter p = [] :=
    List.filter_eq_nil_iff.mpr fun row hrow hpass => by
      have := (hp row (List.mem_of_mem_take hrow)).mp hpass
      have := h.mem_take hrow
      omega
  have hdrop : (rows.drop n).filter p = rows.drop n :=
    List.filter_eq_self.mpr fun row hrow =>
      (hp row (List.mem_of_mem_drop hrow)).mpr (h.mem_drop hrow)
  conv_lhs => rw [← List.take_append_drop n rows]
  rw [List.filter_append, htake, hdrop, List.nil_append]

theorem pairwise_drop (h : Consecutive (rows.map key)) (n : Nat) :
    (rows.drop n).Pairwise fun a b => key a ≤ key b :=
  ((List.pairwise_map.mp h.pairwise).sublist (List.drop_sublist n rows)).imp Int64.le_of_lt

end Rows

/-- The next number exists as long as it fits. -/
theorem next_total {column : List Int64} (h : Consecutive column)
    (hroom : column.length < 2 ^ 63 - 1) : ∃ k, nextSequence column = some k := by
  have hone : (1 : Int64).toInt = 1 := rfl
  refine ⟨_, if_pos ?_⟩
  rw [h.max, hone, Int64.toInt_minValue, Int64.toInt_maxValue]
  omega

theorem append_next {column : List Int64} (hcol : Consecutive column) {k : Int64}
    (h : nextSequence column = some k) : Consecutive (column ++ [k]) :=
  hcol.append (hcol.next h)

end Consecutive

end Minisqlite
