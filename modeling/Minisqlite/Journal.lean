import Minisqlite.Effects.Claim

/-!
# The journal of a run

An `Entry` is what one COMMIT makes durable as a transaction, and the journal
of a run is the list of its entries in the order in which they became durable.
The COMMIT of a direct lease extension makes no entry: it writes no row of
`transactions`.

* `CallEffect`, `next_effect`: everything that a call can do to the database.
* `spec_persists`: no call changes what a job was enqueued as.
* `journal_recorded`: the rows of `transactions` are the entries of the
  journal, one for one and in order.
* `receipts_granted`: the rows of `claim_receipts` are the grants of the journal.
* `transaction_iff`, `transaction_persists`: what a lookup by transaction id
  finds, now and ever after.
-/

namespace Minisqlite

open Tables Runs

/-! ## Effects of a call -/

/-- What one COMMIT makes durable. -/
inductive Entry
  | batch (batch : CommitBatch)
  | claim (transactionId : Id) (request : ClaimRequest) (jobs : List ClaimedJob)
deriving DecidableEq

def Entry.transactionId : Entry → Id
  | .batch b => b.transactionId
  | .claim transactionId _ _ => transactionId

/-- The entry that a call adds, if its transaction persists. -/
def ControlPlaneStore.entries (store : ControlPlaneStore) : Call → List Entry
  | .commit limits batch step =>
    match step.persists, stageCommit limits store.db batch with
    | true, .ok (.staged _ _) => [.batch batch]
    | _, _ => []
  | .claimJobs request entropy step =>
    match step.persists, stageClaim store.db request entropy with
    | true, .ok (some staged) => [.claim staged.transactionId request staged.jobs]
    | _, _ => []
  | _ => []

/-- The entries of a run. -/
def journal (calls : List Call) : List Entry := controlPlane.log ControlPlaneStore.entries calls

/-- Everything that a call can do to the database. -/
inductive CallEffect (db : Db) : Call → Db → List Entry → Prop
  | unchanged (call : Call) : CallEffect db call db []
  | commit {limits : Limits} {batch : CommitBatch} {step : CommitStep} {db' : Db}
      {receipt : CommitReceipt} (persists : step.persists = true)
      (staged : stageCommit limits db batch = .ok (.staged db' receipt)) :
      CallEffect db (.commit limits batch step) db' [.batch batch]
  | claim {request : ClaimRequest} {entropy : Entropy} {step : CommitStep} {staged : StagedClaim}
      (persists : step.persists = true)
      (staging : stageClaim db request entropy = .ok (some staged)) :
      CallEffect db (.claimJobs request entropy step) staged.db
        [.claim staged.transactionId request staged.jobs]
  | extend {jobId leaseToken : Id} {newExpiryMs nowMs : Int64} {step : CommitStep} {db' : Db}
      {receipt : LeaseExtensionReceipt} (persists : step.persists = true)
      (staged : applyExtendLease db ⟨jobId, leaseToken, newExpiryMs⟩ nowMs = .ok (db', receipt)) :
      CallEffect db (.extendLease jobId leaseToken newExpiryMs nowMs step) db' []

namespace ControlPlaneStore

variable {store : ControlPlaneStore} {step : CommitStep}

/-- A COMMIT makes the staged database the durable one, or leaves the old one. -/
theorem finish_db (store : ControlPlaneStore) (staged : Db) (step : CommitStep) :
    (store.finish staged step).1.db = if step.persists then staged else store.db := by
  cases step <;> rfl

theorem commit_of_staged {limits : Limits} {batch : CommitBatch} {db : Db} {receipt : CommitReceipt}
    (h : stageCommit limits store.db batch = .ok (.staged db receipt)) :
    (store.commit limits batch step).1 = (store.finish db step).1 ∧
      (step = .done → (store.commit limits batch step).2 = .ok receipt) := by
  unfold commit
  rw [h]
  cases step <;> exact ⟨rfl, by simp [finish]⟩

/-- A commit that fails before its COMMIT writes nothing. -/
theorem commit_of_error {limits : Limits} {batch : CommitBatch} {e : CommitError}
    (h : stageCommit limits store.db batch = .error e) :
    store.commit limits batch step = (store.connection, .error e) := by
  unfold commit
  rw [h]

theorem claimJobs_of_staged {request : ClaimRequest} {entropy : Entropy} {staged : StagedClaim}
    (h : stageClaim store.db request entropy = .ok (some staged)) :
    (store.claimJobs request entropy step).1 = (store.finish staged.db step).1 := by
  unfold claimJobs
  rw [h]
  cases step <;> rfl

theorem extendLease_of_staged {jobId leaseToken : Id} {newExpiryMs nowMs : Int64} {db : Db}
    {receipt : LeaseExtensionReceipt}
    (h : applyExtendLease store.db ⟨jobId, leaseToken, newExpiryMs⟩ nowMs = .ok (db, receipt)) :
    (store.extendLease jobId leaseToken newExpiryMs nowMs step).1 = (store.finish db step).1 := by
  unfold extendLease
  rw [h]
  cases step <;> rfl

/-- A direct extension that is refused writes nothing. -/
theorem extendLease_of_error {jobId leaseToken : Id} {newExpiryMs nowMs : Int64} {e : LeaseError}
    (h : applyExtendLease store.db ⟨jobId, leaseToken, newExpiryMs⟩ nowMs = .error e) :
    store.extendLease jobId leaseToken newExpiryMs nowMs step = (store.connection, .error e) := by
  unfold extendLease
  rw [h]

end ControlPlaneStore

open ControlPlaneStore

/-- The inversion of one call. -/
theorem next_effect (store : ControlPlaneStore) (call : Call) :
    CallEffect store.db call (controlPlane.next store call).db (store.entries call) := by
  cases call with
  | commit limits batch step =>
    show CallEffect _ _ (store.commit limits batch step).1.db _
    match hstage : stageCommit limits store.db batch with
    | .error e => simpa [commit, entries, hstage] using CallEffect.unchanged _
    | .ok (.resubmitted receipt) => simpa [commit, entries, hstage] using CallEffect.unchanged _
    | .ok (.staged db receipt) =>
      rw [(commit_of_staged hstage).1, finish_db]
      cases hpersists : step.persists with
      | false => simpa [entries, hpersists] using CallEffect.unchanged _
      | true => simpa [entries, hpersists, hstage] using CallEffect.commit hpersists hstage
  | claimJobs request entropy step =>
    show CallEffect _ _ (store.claimJobs request entropy step).1.db _
    match hstage : stageClaim store.db request entropy with
    | .error e => simpa [claimJobs, entries, hstage] using CallEffect.unchanged _
    | .ok none => simpa [claimJobs, entries, hstage] using CallEffect.unchanged _
    | .ok (some staged) =>
      rw [claimJobs_of_staged hstage, finish_db]
      cases hpersists : step.persists with
      | false => simpa [entries, hpersists] using CallEffect.unchanged _
      | true => simpa [entries, hpersists, hstage] using CallEffect.claim hpersists hstage
  | extendLease jobId leaseToken newExpiryMs nowMs step =>
    show CallEffect _ _ (store.extendLease jobId leaseToken newExpiryMs nowMs step).1.db _
    match hstage : applyExtendLease store.db ⟨jobId, leaseToken, newExpiryMs⟩ nowMs with
    | .error e => simpa [extendLease, entries, hstage] using CallEffect.unchanged _
    | .ok (db, receipt) =>
      rw [extendLease_of_staged hstage, finish_db]
      cases hpersists : step.persists with
      | false => simpa [entries] using CallEffect.unchanged _
      | true => simpa [entries] using CallEffect.extend hpersists hstage
  | recoverTransaction transactionId => exact .unchanged _
  | recoverClaim transactionId nowMs => exact .unchanged _

/-- The call that adds a batch. -/
theorem CallEffect.of_batch {db db' : Db} {call : Call} {entries : List Entry}
    (h : CallEffect db call db' entries) {b : CommitBatch} (hentry : Entry.batch b ∈ entries) :
    ∃ limits step receipt, call = .commit limits b step ∧ step.persists = true ∧
      stageCommit limits db b = .ok (.staged db' receipt) := by
  cases h with
  | unchanged => cases hentry
  | commit persists staged =>
    obtain rfl := Entry.batch.inj (List.mem_singleton.mp hentry)
    exact ⟨_, _, _, rfl, persists, staged⟩
  | claim => cases List.mem_singleton.mp hentry
  | extend => cases hentry

/-- The call that adds a claim. -/
theorem CallEffect.of_claim {db db' : Db} {call : Call} {entries : List Entry}
    (h : CallEffect db call db' entries) {transactionId : Id} {request : ClaimRequest}
    {jobs : List ClaimedJob} (hentry : Entry.claim transactionId request jobs ∈ entries) :
    ∃ entropy step staged, call = .claimJobs request entropy step ∧ step.persists = true ∧
      stageClaim db request entropy = .ok (some staged) ∧
      staged.transactionId = transactionId ∧ staged.jobs = jobs := by
  cases h with
  | unchanged => cases hentry
  | commit => cases List.mem_singleton.mp hentry
  | claim persists staging =>
    obtain ⟨rfl, rfl, rfl⟩ := Entry.claim.inj (List.mem_singleton.mp hentry)
    exact ⟨_, _, _, rfl, persists, staging, rfl, rfl⟩
  | extend => cases hentry

theorem mem_entries_batch {store : ControlPlaneStore} {call : Call} {b : CommitBatch} :
    Entry.batch b ∈ store.entries call ↔ ∃ limits step db' receipt, call = .commit limits b step ∧
      step.persists = true ∧ stageCommit limits store.db b = .ok (.staged db' receipt) := by
  constructor
  · intro h
    obtain ⟨limits, step, receipt, hcall, hrest⟩ := (next_effect store call).of_batch h
    exact ⟨limits, step, _, receipt, hcall, hrest⟩
  · rintro ⟨limits, step, db', receipt, rfl, persists, staged⟩
    simp [entries, persists, staged]

theorem mem_entries_claim {store : ControlPlaneStore} {call : Call} {transactionId : Id}
    {request : ClaimRequest} {jobs : List ClaimedJob} :
    Entry.claim transactionId request jobs ∈ store.entries call ↔ ∃ entropy step staged,
      call = .claimJobs request entropy step ∧ step.persists = true ∧
      stageClaim store.db request entropy = .ok (some staged) ∧
      staged.transactionId = transactionId ∧ staged.jobs = jobs := by
  constructor
  · exact (next_effect store call).of_claim
  · rintro ⟨entropy, step, staged, rfl, persists, staging, rfl, rfl⟩
    simp [entries, persists, staging]

/-! ## Jobs -/

/-- A job stays what it was enqueued as. -/
theorem CallEffect.spec {db db' : Db} {call : Call} {entries : List Entry}
    (h : CallEffect db call db' entries) {jobId : Id} {spec : JobSpec}
    (hspec : (db.job jobId).map JobRow.spec = some spec) :
    (db'.job jobId).map JobRow.spec = some spec := by
  have hkeeps {batch : CommitBatch} {op : Operation} {before after : Option JobRow}
      (hchange : JobChange batch op jobId before after) (h : before.map JobRow.spec = some spec) :
      after.map JobRow.spec = some spec := by
    cases hchange with
    | same => exact h
    | enqueued => cases h
    | @step job u => exact (congrArg some (u.spec job)).trans h
  cases h with
  | unchanged => exact hspec
  | commit persists staged =>
    exact stageBatch_induction (P := fun d => (d.job jobId).map JobRow.spec = some spec)
      (fun _ _ _ h => h) (fun _ _ _ happlies => hkeeps (applyOperation_change happlies.apply jobId))
      (stageCommit_staged staged).2.2 hspec
  | @claim _ _ _ staged persists staging =>
    obtain ⟨_, _, hwrite⟩ := stageClaim_write staging
    have hchange := hwrite.change jobId
    generalize db.job jobId = before, staged.db.job jobId = after at hchange hspec ⊢
    cases hchange with
    | same => exact hspec
    | repaired => exact (congrArg some (JobUpdate.spec _ _)).trans hspec
    | leased => exact hspec
  | extend persists staged =>
    obtain ⟨batch, hwrite⟩ := applyExtendLease_direct staged
    exact hkeeps (hwrite.effect.change jobId) hspec

theorem spec_persists (calls : List Call) {i k : Nat} (hik : i ≤ k) {jobId : Id} {spec : JobSpec}
    (h : ((controlPlane.stateAt calls i).db.job jobId).map JobRow.spec = some spec) :
    ((controlPlane.stateAt calls k).db.job jobId).map JobRow.spec = some spec :=
  Machine.stateAt_rel (M := controlPlane) (R := fun s t : ControlPlaneStore =>
      (s.db.job jobId).map JobRow.spec = some spec → (t.db.job jobId).map JobRow.spec = some spec)
    (fun _ h => h) (fun _ _ _ hst htu h => htu (hst h))
    (fun store call _ => (next_effect store call).spec) calls hik h

/-! ## The journal and the transactions table -/

/-- The row of `transactions` that an entry leaves. -/
inductive Entry.Recorded : Entry → TransactionRow → Prop
  | batch (b : CommitBatch) (sequence : Int64) : Recorded (.batch b) (b.row sequence)
  | claim (transactionId : Id) (request : ClaimRequest) (jobs : List ClaimedJob)
      (operationCount : Nat) (sequence : Int64) :
      Recorded (.claim transactionId request jobs)
        (claimRow transactionId request operationCount sequence)

theorem Entry.Recorded.transactionId {entry : Entry} {row : TransactionRow}
    (h : entry.Recorded row) : row.transactionId = entry.transactionId := by
  cases h <;> rfl

/-- A call that adds an entry appends its row to `transactions`, with the next
sequence; any other call leaves the table alone. -/
theorem CallEffect.transactions {db db' : Db} {call : Call} {entries : List Entry}
    (h : CallEffect db call db' entries) :
    (entries = [] ∧ db'.transactions = db.transactions) ∨
    ∃ entry row, entries = [entry] ∧ entry.Recorded row ∧
      db'.transactions.rows = db.transactions.rows ++ [row] ∧
      nextSequence (db.transactions.rows.map TransactionRow.transactionSequence) =
        some row.transactionSequence := by
  cases h with
  | unchanged => exact .inl ⟨rfl, rfl⟩
  | @commit limits batch step _ receipt persists staged =>
    obtain ⟨-, -, hbatch⟩ := stageCommit_staged staged
    obtain ⟨sequence, hseq, hrows, -⟩ := stageBatch_transactions hbatch
    exact .inr ⟨_, batch.row sequence, rfl, .batch _ _, hrows, hseq⟩
  | @claim request _ _ staged persists staging =>
    obtain ⟨_, _, hwrite⟩ := stageClaim_write staging
    obtain ⟨operationCount, sequence, hseq, hrows⟩ := hwrite.transactions
    exact .inr ⟨_, claimRow staged.transactionId request operationCount sequence, rfl,
      .claim _ _ _ _ _, hrows, hseq⟩
  | extend persists staged =>
    obtain ⟨_, _, _, _, -, -, -, -, -, -, rfl, -⟩ := EffectLemmas.applyExtendLease_ok staged
    exact .inl ⟨rfl, rfl⟩

/-- The id of a new entry was not on record. -/
theorem CallEffect.free {db db' : Db} {call : Call} {entries : List Entry}
    (h : CallEffect db call db' entries) {entry : Entry} (hentry : entry ∈ entries) :
    db.transaction entry.transactionId = none := by
  cases h with
  | unchanged => cases hentry
  | commit persists staged =>
    obtain rfl := List.mem_singleton.mp hentry
    exact (stageCommit_staged staged).2.1
  | claim persists staging =>
    obtain rfl := List.mem_singleton.mp hentry
    obtain ⟨_, _, hwrite⟩ := stageClaim_write staging
    exact Table.lookup_eq_none.mpr hwrite.free
  | extend => cases hentry

/-- The rows of `transactions` are the entries of the journal. -/
theorem journal_recorded (calls : List Call) :
    List.Forall₂ Entry.Recorded (journal calls)
      (controlPlane.after calls).db.transactions.rows := by
  refine controlPlane.log_induction (P := fun entries store =>
    List.Forall₂ Entry.Recorded entries store.db.transactions.rows) .nil ?_ calls
  intro calls call ih
  rcases (next_effect (controlPlane.after calls) call).transactions with
    ⟨hentries, hrows⟩ | ⟨entry, row, hentries, hrecorded, hrows, -⟩
  · rw [hentries, hrows, List.append_nil]
    exact ih
  · rw [hentries, hrows]
    exact List.rel_append ih (.cons hrecorded .nil)

/-- Transaction sequences count the transactions in the order of their COMMITs. -/
theorem transactions_consecutive (calls : List Call) : Consecutive
    ((controlPlane.after calls).db.transactions.rows.map TransactionRow.transactionSequence) := by
  refine controlPlane.after_induction (P := fun _ store => Consecutive
    (store.db.transactions.rows.map TransactionRow.transactionSequence)) .nil ?_ calls
  intro calls call ih
  rcases (next_effect (controlPlane.after calls) call).transactions with
    ⟨-, hrows⟩ | ⟨entry, row, -, -, hrows, hnext⟩
  · rw [hrows]
    exact ih
  · rw [hrows, List.map_append]
    exact ih.append_next hnext

/-- One call writes at most one transaction. -/
theorem transactions_room (calls : List Call) (call : Call) :
    (controlPlane.after (calls ++ [call])).db.transactions.rows.length ≤
      (controlPlane.after calls).db.transactions.rows.length + 1 := by
  rw [Machine.after_append_singleton]
  rcases (next_effect (controlPlane.after calls) call).transactions with
    ⟨-, hrows⟩ | ⟨_, _, -, -, hrows, -⟩ <;> rw [hrows] <;> simp

theorem transactions_unique_rows {db : Db} {row : TransactionRow} (h : row ∈ db.transactions.rows) :
    db.transaction row.transactionId = some row :=
  Table.lookup_of_mem transactions_unique h

/-- A recorded transaction stays as it is. -/
theorem transaction_persists (calls : List Call) {i k : Nat} (hik : i ≤ k) {transactionId : Id}
    {row : TransactionRow}
    (h : (controlPlane.stateAt calls i).db.transaction transactionId = some row) :
    (controlPlane.stateAt calls k).db.transaction transactionId = some row := by
  refine Machine.stateAt_rel (M := controlPlane) (R := fun s t : ControlPlaneStore =>
    s.db.transaction transactionId = some row → t.db.transaction transactionId = some row)
    (fun _ h => h) (fun _ _ _ hst htu h => htu (hst h)) (fun store call _ h => ?_) calls hik h
  rcases (next_effect store call).transactions with ⟨-, hrows⟩ | ⟨entry, row, -, -, hrows, -⟩
  · rw [Db.transaction, hrows]
    exact h
  · rw [Db.transaction, Table.lookup_append hrows]
    exact Option.or_eq_some_iff.mpr (.inl h)

theorem recorded_of_mem {entries : List Entry} {rows : List TransactionRow}
    (h : List.Forall₂ Entry.Recorded entries rows) :
    (∀ entry ∈ entries, ∃ row ∈ rows, entry.Recorded row) ∧
      ∀ row ∈ rows, ∃ entry ∈ entries, entry.Recorded row := by
  induction h with
  | nil => simp
  | cons hrow _ ih =>
    obtain ⟨hleft, hright⟩ := ih
    constructor
    · intro entry hentry
      rcases List.mem_cons.mp hentry with rfl | hentry
      · exact ⟨_, List.mem_cons_self, hrow⟩
      · obtain ⟨row, hmem, hrec⟩ := hleft entry hentry
        exact ⟨row, List.mem_cons_of_mem _ hmem, hrec⟩
    · intro row hmem
      rcases List.mem_cons.mp hmem with rfl | hmem
      · exact ⟨_, List.mem_cons_self, hrow⟩
      · obtain ⟨entry, hentry, hrec⟩ := hright row hmem
        exact ⟨entry, List.mem_cons_of_mem _ hentry, hrec⟩

/-- A transaction id is on record when an entry of the journal has it. -/
theorem transaction_iff {calls : List Call} {transactionId : Id} {row : TransactionRow} :
    (controlPlane.after calls).db.transaction transactionId = some row ↔
      row ∈ (controlPlane.after calls).db.transactions.rows ∧ ∃ entry ∈ journal calls,
        entry.Recorded row ∧ entry.transactionId = transactionId := by
  rw [Db.transaction, Table.lookup_iff transactions_unique]
  constructor
  · rintro ⟨hrow, rfl⟩
    obtain ⟨entry, hentry, hrecorded⟩ := (recorded_of_mem (journal_recorded calls)).2 row hrow
    exact ⟨hrow, entry, hentry, hrecorded, hrecorded.transactionId.symm⟩
  · rintro ⟨hrow, entry, -, hrecorded, rfl⟩
    exact ⟨hrow, hrecorded.transactionId⟩

/-! ## The journal and the claim receipts -/

/-- What a claim receipt keeps for good: everything but the expiry. -/
structure Grant where
  transactionId : Id
  jobId : Id
  leaseToken : Id
  attempt : UInt32
  workerId : String
deriving DecidableEq

def ClaimReceiptRow.grant (receipt : ClaimReceiptRow) : Grant :=
  ⟨receipt.transactionId, receipt.jobId, receipt.leaseToken, receipt.attempt, receipt.workerId⟩

def ClaimedJob.grant (transactionId : Id) (claimed : ClaimedJob) : Grant :=
  ⟨transactionId, claimed.jobId, claimed.leaseToken, claimed.attempt, claimed.workerId⟩

/-- The leases that an entry granted. -/
def Entry.grants : Entry → List Grant
  | .batch _ => []
  | .claim transactionId _ jobs => jobs.map (ClaimedJob.grant transactionId)

/-- The leases that a run granted, in order. -/
def grants (calls : List Call) : List Grant :=
  controlPlane.log (fun store call => (store.entries call).flatMap Entry.grants) calls

theorem onReceipt_grant (op : Operation) (receipt : ClaimReceiptRow) :
    (op.onReceipt receipt).grant = receipt.grant := by
  cases op with
  | extendLease extension =>
    simp only [Operation.onReceipt]
    split <;> rfl
  | _ => rfl

/-- A call appends the receipts of its grants; the grants of the others stay. -/
theorem CallEffect.receipts {db db' : Db} {call : Call} {entries : List Entry}
    (h : CallEffect db call db' entries) : db'.claimReceipts.rows.map ClaimReceiptRow.grant =
      db.claimReceipts.rows.map ClaimReceiptRow.grant ++ entries.flatMap Entry.grants := by
  have hmap : ∀ (op : Operation) (rows : List ClaimReceiptRow),
      (rows.map op.onReceipt).map ClaimReceiptRow.grant = rows.map ClaimReceiptRow.grant :=
    fun op rows => by simp [Function.comp_def, onReceipt_grant]
  cases h with
  | unchanged => simp
  | commit persists staged =>
    refine stageBatch_induction (P := fun d => d.claimReceipts.rows.map ClaimReceiptRow.grant =
      db.claimReceipts.rows.map ClaimReceiptRow.grant ++ _) (fun _ _ _ h => h) ?_
      (stageCommit_staged staged).2.2 (by simp [Entry.grants])
    intro tx tx' op happlies htx
    rw [applyOperation_receipts happlies.apply, hmap, htx]
  | claim persists staging =>
    obtain ⟨leases, expiryMs, hwrite⟩ := stageClaim_write staging
    simp [hwrite.receipts, hwrite.jobs, Entry.grants, Function.comp_def, ClaimReceiptRow.grant,
      ClaimedJob.grant, ProposedLease.receipt, ProposedLease.claimed]
  | extend persists staged =>
    obtain ⟨_, _, _, _, -, -, -, -, -, -, rfl, -, hrows⟩ := EffectLemmas.applyExtendLease_ok staged
    rw [hrows, hmap]
    simp

/-- The rows of `claim_receipts` are the leases that the run granted. -/
theorem receipts_granted (calls : List Call) :
    (controlPlane.after calls).db.claimReceipts.rows.map ClaimReceiptRow.grant = grants calls := by
  refine controlPlane.log_induction (P := fun granted store =>
    store.db.claimReceipts.rows.map ClaimReceiptRow.grant = granted) rfl ?_ calls
  intro calls call ih
  rw [(next_effect (controlPlane.after calls) call).receipts, ih]

/-- A receipt belongs to an entry of the journal. -/
theorem entry_of_receipt {calls : List Call} {k : Nat} {receipt : ClaimReceiptRow}
    (h : receipt ∈ (controlPlane.stateAt calls k).db.claimReceipts.rows) :
    ∃ entry ∈ journal (calls.take k), receipt.grant ∈ entry.grants := by
  have hgrant : receipt.grant ∈ grants (calls.take k) := by
    rw [← receipts_granted]
    exact List.mem_map_of_mem h
  obtain ⟨i, hik, call, hcall, hmem⟩ := Machine.mem_log_take.mp hgrant
  obtain ⟨entry, hentry, hgrant⟩ := List.mem_flatMap.mp hmem
  exact ⟨entry, Machine.mem_log_take.mpr ⟨i, hik, call, hcall, hentry⟩, hgrant⟩

theorem Entry.grants_transactionId {entry : Entry} {g : Grant} (h : g ∈ entry.grants) :
    g.transactionId = entry.transactionId := by
  cases entry with
  | batch b => cases h
  | claim transactionId request jobs =>
    obtain ⟨claimed, -, rfl⟩ := List.mem_map.mp h
    rfl

/-! ## Persisted transactions -/

/-- Call `i` is a commit of `batch` whose transaction persisted. It answers
`receipt` if its COMMIT is not lost. -/
def CommitPersisted (calls : List Call) (i : Nat) (limits : Limits) (batch : CommitBatch)
    (receipt : CommitReceipt) : Prop :=
  ∃ step db', calls[i]? = some (.commit limits batch step) ∧ step.persists = true ∧
    stageCommit limits (controlPlane.stateAt calls i).db batch = .ok (.staged db' receipt)

/-- Call `i` is a claim whose transaction persisted. -/
def ClaimPersisted (calls : List Call) (i : Nat) (request : ClaimRequest) (staged : StagedClaim) :
    Prop :=
  ∃ entropy step, calls[i]? = some (.claimJobs request entropy step) ∧ step.persists = true ∧
    stageClaim (controlPlane.stateAt calls i).db request entropy = .ok (some staged)

section Persisted

variable {calls : List Call} {i k : Nat} {limits : Limits} {batch : CommitBatch}
  {receipt : CommitReceipt} {request : ClaimRequest} {staged : StagedClaim}

theorem mem_journal_batch : Entry.batch batch ∈ journal (calls.take k) ↔
    ∃ i < k, ∃ limits receipt, CommitPersisted calls i limits batch receipt := by
  rw [journal, Machine.mem_log_take]
  constructor
  · rintro ⟨i, hik, call, hi, hentry⟩
    obtain ⟨limits, step, db', receipt, rfl, persists, staged⟩ := mem_entries_batch.mp hentry
    exact ⟨i, hik, limits, receipt, step, db', hi, persists, staged⟩
  · rintro ⟨i, hik, limits, receipt, step, db', hi, persists, staged⟩
    exact ⟨i, hik, _, hi, mem_entries_batch.mpr ⟨_, _, _, _, rfl, persists, staged⟩⟩

theorem mem_journal_claim {transactionId : Id} {jobs : List ClaimedJob} :
    Entry.claim transactionId request jobs ∈ journal (calls.take k) ↔
      ∃ i < k, ∃ staged, ClaimPersisted calls i request staged ∧
        staged.transactionId = transactionId ∧ staged.jobs = jobs := by
  rw [journal, Machine.mem_log_take]
  constructor
  · rintro ⟨i, hik, call, hi, hentry⟩
    obtain ⟨entropy, step, staged, rfl, persists, staging, hid, hjobs⟩ :=
      mem_entries_claim.mp hentry
    exact ⟨i, hik, staged, ⟨entropy, step, hi, persists, staging⟩, hid, hjobs⟩
  · rintro ⟨i, hik, staged, ⟨entropy, step, hi, persists, staging⟩, hid, hjobs⟩
    exact ⟨i, hik, _, hi, mem_entries_claim.mpr ⟨_, _, _, rfl, persists, staging, hid, hjobs⟩⟩

/-- A persisted batch leaves the state that it staged. -/
theorem CommitPersisted.next (h : CommitPersisted calls i limits batch receipt) :
    ∃ db', stageBatch (controlPlane.stateAt calls i).db batch = .ok (db', receipt) ∧
      (controlPlane.stateAt calls (i + 1)).db = db' := by
  obtain ⟨step, db', hi, persists, staged⟩ := h
  refine ⟨db', (stageCommit_staged staged).2.2, ?_⟩
  rw [Machine.stateAt_succ hi]
  show ((controlPlane.stateAt calls i).commit limits batch step).1.db = db'
  rw [(commit_of_staged staged).1, finish_db, if_pos persists]

theorem ClaimPersisted.next (h : ClaimPersisted calls i request staged) :
    (controlPlane.stateAt calls (i + 1)).db = staged.db := by
  obtain ⟨entropy, step, hi, persists, staging⟩ := h
  rw [Machine.stateAt_succ hi]
  show ((controlPlane.stateAt calls i).claimJobs request entropy step).1.db = staged.db
  rw [claimJobs_of_staged staging, finish_db, if_pos persists]

/-- A persisted batch is on record from then on. -/
theorem CommitPersisted.recorded (h : CommitPersisted calls i limits batch receipt) (hik : i < k) :
    ∃ sequence, (controlPlane.stateAt calls k).db.transaction batch.transactionId =
      some (batch.row sequence) ∧ receipt = (batch.row sequence).receipt := by
  obtain ⟨db', hstage, hnext⟩ := h.next
  obtain ⟨sequence, -, hrows, hreceipt⟩ := stageBatch_transactions hstage
  refine ⟨sequence, transaction_persists calls hik ?_, hreceipt⟩
  have hrow : batch.row sequence ∈ db'.transactions.rows := by simp [hrows]
  rw [hnext]
  exact transactions_unique_rows hrow

/-- One claim grants a job once. -/
theorem ClaimPersisted.jobIds_nodup (h : ClaimPersisted calls i request staged) :
    (staged.jobs.map ClaimedJob.jobId).Nodup := by
  obtain ⟨entropy, step, -, -, staging⟩ := h
  obtain ⟨leases, expiryMs, hwrite⟩ := stageClaim_write staging
  rw [hwrite.jobs, List.map_map]
  exact hwrite.nodup

/-- A persisted claim is on record from then on. -/
theorem ClaimPersisted.recorded (h : ClaimPersisted calls i request staged) (hik : i < k) :
    ∃ operationCount sequence,
      (controlPlane.stateAt calls k).db.transaction staged.transactionId =
        some (claimRow staged.transactionId request operationCount sequence) := by
  have hnext := h.next
  obtain ⟨entropy, step, -, -, staging⟩ := h
  obtain ⟨_, _, hwrite⟩ := stageClaim_write staging
  obtain ⟨operationCount, sequence, -, hrows⟩ := hwrite.transactions
  refine ⟨operationCount, sequence, transaction_persists calls hik ?_⟩
  have hrow : claimRow staged.transactionId request operationCount sequence ∈
      staged.db.transactions.rows := by simp [hrows]
  rw [hnext]
  exact transactions_unique_rows hrow

end Persisted

end Minisqlite
