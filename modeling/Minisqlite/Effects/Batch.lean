import Minisqlite.Effects.Operation

/-!
# What a batch does

A batch that can be committed is its expectations, its row in `transactions`,
its operations one after the other, and the stream versions it writes back.

* `stageBatch_induction`, `stageBatch_unless`: what every operation preserves, the
  batch preserves. `Applies.rest`: from one of them on.
* `stageCommit_staged`: a staged batch was valid and not on record.
* `writeStreamVersions_version`: the version of every stream after the batch.
* `stageBatch_opError`, `stageCommit_error`: the first error of a batch is the
  error of its commit.
-/

namespace Minisqlite

open Tables Runs

/-! ## Stream versions -/

theorem setStreamVersion_version (db : Db) (entry : Sigma fun _ : String => UInt64)
    (streamId : String) : (setStreamVersion db entry).streamVersion streamId =
      if entry.1 = streamId then entry.2 else db.streamVersion streamId := by
  simp only [Db.streamVersion, setStreamVersion]
  rw [Table.lookup_upsert]
  split
  · cases db.streams.lookup StreamRow.streamId streamId <;> simp
  · rfl

theorem foldl_setStreamVersion (entries : List (Sigma fun _ : String => UInt64))
    (nodup : entries.NodupKeys) (db : Db) (streamId : String) :
    (entries.foldl setStreamVersion db).streamVersion streamId =
      (entries.dlookup streamId).getD (db.streamVersion streamId) := by
  induction entries generalizing db with
  | nil => rfl
  | cons entry entries ih =>
    obtain ⟨key, version⟩ := entry
    obtain ⟨hkey, hrest⟩ := List.nodupKeys_cons.mp nodup
    rw [List.foldl_cons, ih hrest, setStreamVersion_version]
    by_cases hs : key = streamId
    · -- A stream is written back once, so nothing after this entry touches it.
      subst hs
      simp [List.dlookup_eq_none.mpr hkey]
    · rw [List.dlookup_cons_ne _ _ (Ne.symm hs), if_neg hs]

theorem foldl_setStreamVersion_streams (entries : List (Sigma fun _ : String => UInt64)) (db : Db) :
    ∃ streams, entries.foldl setStreamVersion db = { db with streams := streams } := by
  induction entries generalizing db with
  | nil => exact ⟨_, rfl⟩
  | cons entry entries ih =>
    obtain ⟨streams, h⟩ := ih (setStreamVersion db entry)
    exact ⟨streams, h⟩

/-- After the write-back each stream has the version that the batch holds. -/
theorem writeStreamVersions_version (tx : OpenBatch) (streamId : String) :
    (writeStreamVersions tx).streamVersion streamId = tx.version streamId :=
  foldl_setStreamVersion _ tx.streamVersions.nodupKeys _ _

theorem writeStreamVersions_streams (tx : OpenBatch) :
    ∃ streams, writeStreamVersions tx = { tx.db with streams := streams } :=
  foldl_setStreamVersion_streams _ _

/-! ## Inversion of the pipeline -/

section Batch

variable {batch : CommitBatch} {db db' : Db} {receipt : CommitReceipt}

theorem insertTransaction_ok {ε : Type} [FromStorage ε] {row : Int64 → TransactionRow}
    {sequence : Int64} (h : (insertTransaction db row : Except ε _) = .ok (db', sequence)) :
    ∃ transactions, db' = { db with transactions := transactions } ∧
      nextSequence (db.transactions.rows.map TransactionRow.transactionSequence) = some sequence ∧
      transactions.rows = db.transactions.rows ++ [row sequence] ∧
      ∀ r ∈ db.transactions.rows, r.transactionId ≠ (row sequence).transactionId := by
  obtain ⟨sequence, hseq, h⟩ := bind_ok h
  obtain ⟨transactions, hinsert, h⟩ := bind_ok h
  cases h
  obtain ⟨hrows, hclash⟩ := Table.insert_eq_some (execute_ok.mp hinsert)
  refine ⟨transactions, rfl, execute_ok.mp hseq, hrows, fun r hr he => ?_⟩
  have := hclash r hr
  simp [transactionsSchema, he] at this

/-- A row with a new id is inserted, as long as sequences last. -/
theorem insertTransaction_total {ε : Type} [FromStorage ε] (row : Int64 → TransactionRow)
    (hsequences : Consecutive (db.transactions.rows.map TransactionRow.transactionSequence))
    (hroom : db.transactions.rows.length < 2 ^ 63 - 1)
    (hrow : ∀ sequence, (row sequence).transactionSequence = sequence)
    (hfree : ∀ r ∈ db.transactions.rows, ∀ sequence,
      r.transactionId ≠ (row sequence).transactionId) :
    ∃ db' sequence, (insertTransaction db row : Except ε _) = .ok (db', sequence) := by
  obtain ⟨sequence, hsequence⟩ := hsequences.next_total (by simpa using hroom)
  obtain ⟨transactions, hinsert⟩ : ∃ transactions,
      db.transactions.insert (row sequence) = some transactions := by
    refine Table.insert_isSome rfl fun r hr => ?_
    have hlt := lt_nextSequence hsequence r.transactionSequence (List.mem_map_of_mem hr)
    have hne : r.transactionSequence ≠ sequence := Int64.ne_of_lt hlt
    simp [transactionsSchema, hrow, hne, hfree r hr sequence]
  exact ⟨{ db with transactions := transactions }, sequence, by
    rw [insertTransaction, hsequence, execute_ok.mpr rfl]
    show (execute (db.transactions.insert (row sequence)) >>= _) = _
    rw [hinsert]
    rfl⟩

theorem openBatch_ok {tx : OpenBatch} (h : openBatch db batch = .ok (tx, receipt)) :
    ∃ transactions sequence,
      batch.expectedStreamVersions.foldlM (checkExpected db) ∅ = .ok tx.streamVersions ∧
      tx.db = { db with transactions := transactions } ∧
      nextSequence (db.transactions.rows.map TransactionRow.transactionSequence) = some sequence ∧
      transactions.rows = db.transactions.rows ++ [batch.row sequence] ∧
      receipt = (batch.row sequence).receipt := by
  obtain ⟨streamVersions, hversions, h⟩ := bind_ok h
  obtain ⟨⟨db₁, sequence⟩, hinsert, h⟩ := bind_ok h
  obtain ⟨transactions, rfl, hseq, hrows, -⟩ := insertTransaction_ok hinsert
  cases h
  exact ⟨transactions, sequence, hversions, rfl, hseq, hrows, rfl⟩

theorem stageBatch_ok (h : stageBatch db batch = .ok (db', receipt)) :
    ∃ tx tx', openBatch db batch = .ok (tx, receipt) ∧
      batch.operations.foldlM (applyOperation batch) tx = .ok tx' ∧
      db' = writeStreamVersions tx' := by
  obtain ⟨⟨tx, receipt⟩, hopen, h⟩ := bind_ok h
  obtain ⟨tx', hops, h⟩ := bind_ok h
  cases h
  exact ⟨tx, tx', hopen, hops, rfl⟩

/-- The operations work between an INSERT into `transactions` and the write-back of
`streams`. -/
theorem stageBatch_phases (h : stageBatch db batch = .ok (db', receipt)) :
    ∃ tx tx' transactions streams, openBatch db batch = .ok (tx, receipt) ∧
      tx.db = { db with transactions := transactions } ∧
      batch.operations.foldlM (applyOperation batch) tx = .ok tx' ∧
      db' = { tx'.db with streams := streams } := by
  obtain ⟨tx, tx', hopen, hops, rfl⟩ := stageBatch_ok h
  obtain ⟨transactions, _, -, htx, -⟩ := openBatch_ok hopen
  obtain ⟨streams, hstreams⟩ := writeStreamVersions_streams tx'
  exact ⟨tx, tx', transactions, streams, hopen, htx, hops, hstreams⟩

/-- Committing the batch applies `op` in the state `tx`, which becomes `tx'`. -/
def Applies (db : Db) (batch : CommitBatch) (op : Operation) (tx tx' : OpenBatch) : Prop :=
  ∃ tx₀ receipt pre post, openBatch db batch = .ok (tx₀, receipt) ∧
    batch.operations = pre ++ op :: post ∧ pre.foldlM (applyOperation batch) tx₀ = .ok tx ∧
    applyOperation batch tx op = .ok tx'

/-- What every operation preserves, the batch preserves: the rest of the
pipeline writes only `transactions` and `streams`. -/
theorem stageBatch_induction {P : Db → Prop}
    (frame : ∀ d transactions streams, P d →
      P { d with transactions := transactions, streams := streams })
    (step : ∀ tx tx' op, Applies db batch op tx tx' → P tx.db → P tx'.db)
    (h : stageBatch db batch = .ok (db', receipt)) (hdb : P db) : P db' := by
  obtain ⟨tx, tx', transactions, streams, hopen, htx, hops, rfl⟩ := stageBatch_phases h
  refine frame _ tx'.db.transactions streams (foldlM_passes (P := fun t => P t.db)
    (fun pre op post t u hxs ht hu => step t u op ⟨tx, receipt, pre, post, hopen, hxs, ht, hu⟩)
    hops ?_)
  rw [htx]
  exact frame db transactions db.streams hdb

theorem Applies.apply {op : Operation} {tx tx' : OpenBatch} (h : Applies db batch op tx tx') :
    applyOperation batch tx op = .ok tx' := by
  obtain ⟨_, _, _, _, -, -, -, happly⟩ := h
  exact happly

theorem Applies.mem {op : Operation} {tx tx' : OpenBatch} (h : Applies db batch op tx tx') :
    op ∈ batch.operations := by
  obtain ⟨_, _, pre, post, -, hops, -, -⟩ := h
  simp [hops]

/-- What the operations after `op` preserve, and the write-back, holds after the batch. -/
theorem Applies.rest {op : Operation} {tx tx' : OpenBatch} (happlies : Applies db batch op tx tx')
    (h : stageBatch db batch = .ok (db', receipt)) {P : Db → Prop}
    (step : ∀ t t' op, applyOperation batch t op = .ok t' → P t.db → P t'.db)
    (written : ∀ d streams, P d → P { d with streams := streams }) (htx : P tx'.db) : P db' := by
  obtain ⟨tx₀, receipt₀, pre, post, hopen, hops, hpre, happly⟩ := happlies
  obtain ⟨tx₁, last, hopen₁, hall, rfl⟩ := stageBatch_ok h
  obtain ⟨rfl, rfl⟩ := Prod.mk.inj (Except.ok.inj (hopen.symm.trans hopen₁))
  rw [hops, List.foldlM_append, hpre] at hall
  obtain ⟨next, hnext, hpost⟩ := foldlM_cons_ok hall
  obtain rfl : tx' = next := Except.ok.inj (happly.symm.trans hnext)
  obtain ⟨streams, hstreams⟩ := writeStreamVersions_streams last
  rw [hstreams]
  exact written _ streams (foldlM_induction (P := fun t : OpenBatch => P t.db)
    (fun t t' op _ ht hok => step t t' op hok ht) hpost htx)

/-- A batch keeps a property that only an operation with `q` can end. -/
theorem stageBatch_unless {P : Db → Prop} {q : Operation → Prop}
    (frame : ∀ d transactions streams, P d →
      P { d with transactions := transactions, streams := streams })
    (step : ∀ tx tx' op, applyOperation batch tx op = .ok tx' → P tx.db → P tx'.db ∨ q op)
    (h : stageBatch db batch = .ok (db', receipt)) (hdb : P db) :
    P db' ∨ ∃ op ∈ batch.operations, q op := by
  obtain ⟨tx, tx', transactions, streams, hopen, htx, hops, rfl⟩ := stageBatch_phases h
  refine (foldlM_unless (P := fun t => P t.db) (q := q)
    (fun tx tx' op ht hok => step tx tx' op hok ht) hops ?_).imp
    (frame _ tx'.db.transactions streams) id
  rw [htx]
  exact frame db transactions db.streams hdb

/-- The row that a batch leaves in `transactions`, and its receipt. -/
theorem stageBatch_transactions (h : stageBatch db batch = .ok (db', receipt)) :
    ∃ sequence, nextSequence (db.transactions.rows.map TransactionRow.transactionSequence)
        = some sequence ∧
      db'.transactions.rows = db.transactions.rows ++ [batch.row sequence] ∧
      receipt = (batch.row sequence).receipt := by
  obtain ⟨tx, tx', hopen, hops, rfl⟩ := stageBatch_ok h
  obtain ⟨transactions, sequence, -, htx, hseq, hrows, hreceipt⟩ := openBatch_ok hopen
  obtain ⟨streams, hstreams⟩ := writeStreamVersions_streams tx'
  have hkept : tx'.db.transactions = tx.db.transactions :=
    foldlM_induction (P := fun t => t.db.transactions = tx.db.transactions)
      (fun t t' op _ ht hok => (applyOperation_transactions hok).trans ht) hops rfl
  refine ⟨sequence, hseq, ?_, hreceipt⟩
  rw [hstreams, hkept, htx, hrows]

theorem stageCommit_staged {limits : Limits}
    (h : stageCommit limits db batch = .ok (.staged db' receipt)) :
    validateBatch limits batch = .ok () ∧ db.transaction batch.transactionId = none ∧
      stageBatch db batch = .ok (db', receipt) := by
  obtain ⟨_, hvalid, h⟩ := bind_ok h
  split at h
  · split at h <;> cases h
  · next hfree =>
    obtain ⟨⟨db₁, receipt₁⟩, hstage, h⟩ := bind_ok h
    cases h
    exact ⟨mapError_eq_ok.mp hvalid, hfree, hstage⟩

/-! ## Failing batches -/

/-- A batch fails with the first error of its operations. -/
theorem stageBatch_opError {tx tx' : OpenBatch} {pre post : List Operation} {op : Operation}
    {e : CommitError} (hopen : openBatch db batch = .ok (tx, receipt))
    (hops : batch.operations = pre ++ op :: post)
    (hpre : pre.foldlM (applyOperation batch) tx = .ok tx')
    (hop : applyOperation batch tx' op = .error e) : stageBatch db batch = .error e := by
  unfold stageBatch
  rw [hopen]
  show ((batch.operations.foldlM (applyOperation batch) tx) >>= _) = _
  rw [hops, foldlM_error hpre hop]
  rfl

/-- A valid batch that is not on record fails with the error of its staging. -/
theorem stageCommit_error {limits : Limits} {e : CommitError}
    (valid : validateBatch limits batch = .ok ())
    (free : db.transaction batch.transactionId = none) (h : stageBatch db batch = .error e) :
    stageCommit limits db batch = .error e := by
  unfold stageCommit
  simp only [valid, free, Except.mapError]
  show (stageBatch db batch >>= _) = _
  rw [h]
  rfl

theorem validateBatch_operation {limits : Limits} (h : validateBatch limits batch = .ok ()) :
    ∀ op ∈ batch.operations, validateOperation limits op = .ok () := by
  obtain ⟨_, -, h⟩ := bind_ok h
  obtain ⟨_, -, h⟩ := bind_ok h
  obtain ⟨_, -, h⟩ := bind_ok h
  obtain ⟨_, -, h⟩ := bind_ok h
  exact forM_ok h

end Batch

end Minisqlite
