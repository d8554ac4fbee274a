import Minisqlite.Backups
import Minisqlite.Lib.Serial
import Minisqlite.Lib.Waiting
import Minisqlite.Receipts
import Minisqlite.References
import Minisqlite.Store.Handles

/-!
# Threads and processes

What the threads of any number of processes get from their stores on one file is what the
control plane would have answered one call after the other.

1. `atomic_eq`: a call without interruptions is the call of `controlPlane`.
2. `undisturbed_of_unclaimed`: of all calls only `recover_claim` looks twice, and only a
   claim through another store can come in between.
3. `linearized_of_unclaimed`, `linearizable`, `served_at_last`, `readOnly_stores`: any
   interleaving, with refusals and crashes anywhere.
-/

namespace Minisqlite

open Tables Runs Threads TableReads

/-- The answer to a call that nothing interrupts. -/
def Request.answer (db : Db) (step : CommitStep) : Request → Answer
  | .commit limits batch => .commit ((ControlPlaneStore.mk db .live).commit limits batch step).2
  | .claimJobs request entropy =>
    .claimJobs ((ControlPlaneStore.mk db .live).claimJobs request entropy step).2
  | .extendLease jobId leaseToken newExpiryMs nowMs => .extendLease
    ((ControlPlaneStore.mk db .live).extendLease jobId leaseToken newExpiryMs nowMs step).2
  | .read query => .read query (db.read query)

/-- The call as one of the control plane, if it is one that can write. -/
def Request.call (step : CommitStep) : Request → Option Call
  | .commit limits batch => some (.commit limits batch step)
  | .claimJobs request entropy => some (.claimJobs request entropy step)
  | .extendLease jobId leaseToken newExpiryMs nowMs =>
    some (.extendLease jobId leaseToken newExpiryMs nowMs step)
  | .read _ => none

/-- The calls that have taken effect, as calls of the control plane. -/
def callsOf {τ : Type} (effects : List (Effect τ Request CommitStep)) : List Call :=
  effects.filterMap fun x => x.request.call x.ending

namespace Sample

def claimRequest : Request :=
  .claimJobs ⟨"mail", "worker", 5, 100, 1⟩ [.ofU128 20, .ofU128 21]

/-- One thread of a store has begun to enqueue a job that another one wants to claim. -/
def waiting : List (Threads.Event Bool Unit Request CommitStep StorageError) :=
  [.invoke true (.commit .default (batch 10 0 [.enqueueJob (spec .requiresReconciliation)])),
    .invoke false claimRequest, .acquire true, .begin true, .acquire false]

/-- The outcome of the claim is asked for through another store, and the COMMIT comes in
between the two queries. -/
def race : List (Threads.Event Bool Bool Request CommitStep StorageError) :=
  [.invoke true (.commit .default (batch 10 0 [.enqueueJob (spec .requiresReconciliation)])),
    .acquire true, .begin true] ++ List.replicate 9 (.statement true) ++
    [.finish true .done, .respond true, .invoke true claimRequest, .acquire true, .begin true] ++
    List.replicate 10 (.statement true) ++
    [.invoke false (.read (.recoverClaim (.ofU128 21) 5)), .acquire false, .look false,
      .finish true .done, .look false, .respond false]

end Sample

namespace ConcurrencyLemmas

open Handles

/-- Two loops whose bodies make the same step, in two shapes of the state. -/
theorem foldlM_transport {ε ε' σ τ α : Type} {f : σ → α → Except ε σ} {g : τ → α → Except ε' τ}
    (view : σ → τ) (err : ε → ε') (h : ∀ s a, g (view s) a = ((f s a).map view).mapError err)
    (xs : List α) (s : σ) : xs.foldlM g (view s) = ((xs.foldlM f s).map view).mapError err := by
  induction xs generalizing s with
  | nil => rfl
  | cons a rest ih =>
    rw [List.foldlM_cons, List.foldlM_cons, h]
    rcases f s a with e | t
    · rfl
    · exact ih t

section Bodies

variable {durable working : Db} {step : CommitStep}

theorem commitWith_atomic (done : Answer) (lost : String → Answer) :
    (commitWith done lost).atomic CommitStep.persists step durable working =
      (if step.persists then working else durable,
        match step with
        | .done => done
        | .lost _ storageError => lost storageError) := by
  cases step <;> rfl

theorem batchBody_atomic (batch : CommitBatch) :
    (batchBody batch).atomic CommitStep.persists step durable working =
      match stageBatch working batch with
      | .error e => (durable, .commit (.error e))
      | .ok (db, receipt) => (if step.persists then db else durable,
          match step with
          | .done => .commit (.ok receipt)
          | .lost _ storageError =>
            .commit (.error (.indeterminate ⟨batch.transactionId, storageError⟩))) := by
  have hexpected := foldlM_transport (fun versions : StreamVersions => versions)
    (fun e : CommitError => Answer.commit (.error e)) (f := checkExpected working)
    (g := fun s expected => (checkExpected working s expected).mapError fun e => .commit (.error e))
    (fun s a => by rcases checkExpected working s a <;> rfl)
    batch.expectedStreamVersions ∅
  rw [batchBody, Body.atomic_checkEach, hexpected]
  rcases hversions : batch.expectedStreamVersions.foldlM (checkExpected working) ∅ with e | versions
  · have hstage : stageBatch working batch = .error e := by
      simp only [stageBatch, openBatch, bind, Except.bind, hversions]
    rw [hstage]
    rfl
  show (Body.writing (Body.attempt _ _)).atomic CommitStep.persists step durable working = _
  rw [Body.atomic_writing, Body.atomic_attempt]
  rcases hinsert : (insertTransaction working batch.row : Except CommitError _) with
    e | ⟨db, sequence⟩
  · have hstage : stageBatch working batch = .error e := by
      simp only [stageBatch, openBatch, bind, Except.bind, hversions, hinsert]
    rw [hstage]
    rfl
  show (Body.each _ _ _ _).atomic CommitStep.persists step durable db = _
  have hoperations := foldlM_transport (fun tx : OpenBatch => (tx.streamVersions, tx.db))
    (fun e : CommitError => Answer.commit (.error e)) (f := applyOperation batch)
    (g := fun s operation => orDrop (fun e => .commit (.error e)) do
      let tx ← applyOperation batch ⟨s.2, s.1⟩ operation
      .ok (tx.streamVersions, tx.db))
    (fun s a => by unfold orDrop; rcases applyOperation batch s a <;> rfl)
    batch.operations ⟨db, versions⟩
  rw [Body.atomic_each, hoperations]
  rcases hops : batch.operations.foldlM (applyOperation batch) ⟨db, versions⟩ with e | tx
  · have hstage : stageBatch working batch = .error e := by
      simp only [stageBatch, openBatch, bind, Except.bind, hversions, hinsert, hops]
    rw [hstage]
    rfl
  · have hstage : stageBatch working batch =
        .ok (writeStreamVersions tx, (batch.row sequence).receipt) := by
      simp only [stageBatch, openBatch, bind, Except.bind, hversions, hinsert, hops]
    rw [hstage]
    exact commitWith_atomic _ _

theorem commit_atomic (limits : Limits) (batch : CommitBatch) (db : Db) :
    (program (.commit limits batch)).atomic CommitStep.persists step db =
      (((ControlPlaneStore.mk db .live).commit limits batch step).1.db,
        .commit ((ControlPlaneStore.mk db .live).commit limits batch step).2) := by
  rcases hvalid : validateBatch limits batch with e | _
  · simp only [program, ControlPlaneStore.commit, stageCommit, hvalid, bind, Except.bind,
      Except.mapError, Program.atomic, ControlPlaneStore.connection_db]
  simp only [program, hvalid, Program.atomic, commitBody, Body.atomic]
  cases hrow : db.transaction batch.transactionId with
  | some row =>
    by_cases hdigest : row.requestDigest = requestDigest batch <;>
      simp only [ControlPlaneStore.commit, stageCommit, hvalid, bind, Except.bind,
        Except.mapError, hrow, hdigest, if_true, if_false, Body.atomic,
        ControlPlaneStore.connection_db]
  | none =>
    simp only [batchBody_atomic]
    rcases hstage : stageBatch db batch with e | ⟨db', receipt⟩
    · simp only [ControlPlaneStore.commit, stageCommit, hvalid, bind, Except.bind,
        Except.mapError, hrow, hstage, ControlPlaneStore.connection_db]
    · simp only [ControlPlaneStore.commit, stageCommit, hvalid, bind, Except.bind,
        Except.mapError, hrow, hstage]
      cases step <;> rfl

/-- A loop over writes that have no result of their own. -/
theorem each_atomic {α : Type} (f : Db → α → Except Error Db) (answer : Error → Answer)
    (xs : List α) (next : Unit → Body Db CommitStep Answer) (working : Db) :
    (Body.each (fun _ a db => orDrop answer do
        let db ← f db a
        .ok ((), db)) xs () next).atomic CommitStep.persists step durable working =
      match xs.foldlM f working with
      | .error e => (durable, answer e)
      | .ok db => (next ()).atomic CommitStep.persists step durable db := by
  have hloop := foldlM_transport (fun db : Db => ((), db)) answer (f := f)
    (g := fun s a => orDrop answer do
      let db ← f s.2 a
      .ok ((), db))
    (fun s a => by unfold orDrop; rcases f s a <;> rfl) xs working
  rw [Body.atomic_each, hloop]
  rcases xs.foldlM f working with e | db <;> rfl

theorem writeBody_atomic (request : ClaimRequest) (leaseExpiresAtMs : Int64)
    (maintenance : List MaintenanceAction) (plan : LeasePlan) :
    (writeBody request leaseExpiresAtMs maintenance plan).atomic CommitStep.persists step durable
      working =
      match writeClaim working request leaseExpiresAtMs maintenance plan with
      | .error e => (durable, .claimJobs (.error (errorToClaim e)))
      | .ok staged => (if step.persists then staged.db else durable,
          match step with
          | .done => .claimJobs (.ok (ControlPlaneStore.claimOutcome staged))
          | .lost _ storageError => .claimJobs (.error (.indeterminate
              ⟨staged.transactionId, staged.jobs.map ClaimedJob.jobId, storageError⟩))) := by
  rw [writeBody]
  rcases hnew : Id.new plan.entropy with e | ⟨transactionId, entropy⟩
  · simp only [writeClaim, bind, Except.bind, hnew, Body.atomic]
  show (Body.writing (Body.attempt _ _)).atomic CommitStep.persists step durable working = _
  rw [Body.atomic_writing, Body.atomic_attempt]
  rcases hinsert : insertClaimTransaction working transactionId request
    (maintenance.length + plan.leases.length) with e | db
  · simp only [writeClaim, bind, Except.bind, hnew, hinsert]
    rfl
  show (Body.each _ _ _ _).atomic CommitStep.persists step durable db = _
  rw [each_atomic]
  rcases hmaintenance : maintenance.foldlM (applyMaintenance transactionId request.nowMs) db with
    e | db
  · simp only [writeClaim, bind, Except.bind, hnew, hinsert, hmaintenance]
  simp only
  rw [each_atomic]
  rcases hleases : plan.leases.foldlM (grantLease transactionId request leaseExpiresAtMs) db with
    e | db
  · simp only [writeClaim, bind, Except.bind, hnew, hinsert, hmaintenance, hleases]
  · simp only [writeClaim, bind, Except.bind, hnew, hinsert, hmaintenance, hleases]
    exact commitWith_atomic _ _

theorem claim_atomic (request : ClaimRequest) (entropy : Entropy) (db : Db) :
    (program (.claimJobs request entropy)).atomic CommitStep.persists step db =
      (((ControlPlaneStore.mk db .live).claimJobs request entropy step).1.db,
        .claimJobs ((ControlPlaneStore.mk db .live).claimJobs request entropy step).2) := by
  rw [program, ControlPlaneStore.claimJobs, stageClaim]
  rcases leaseExpiry request with e | leaseExpiresAtMs
  · rfl
  show (claimBody request entropy leaseExpiresAtMs).atomic CommitStep.persists step db db = _
  simp only [claimBody, Body.atomic, bind, Except.bind]
  rcases planLeases db request entropy with e | plan
  · rfl
  by_cases hnoop : planMaintenance db request = [] ∧ plan.leases = []
  · simp only [if_pos hnoop]
    rfl
  · simp only [if_neg hnoop, writeBody_atomic]
    rcases writeClaim db request leaseExpiresAtMs (planMaintenance db request) plan with e | staged
    · rfl
    · cases step <;> rfl

theorem extend_atomic (jobId leaseToken : Id) (newExpiryMs nowMs : Int64) (db : Db) :
    (program (.extendLease jobId leaseToken newExpiryMs nowMs)).atomic CommitStep.persists step db =
      (((ControlPlaneStore.mk db .live).extendLease jobId leaseToken newExpiryMs nowMs step).1.db,
        .extendLease
          ((ControlPlaneStore.mk db .live).extendLease
            jobId leaseToken newExpiryMs nowMs step).2) := by
  rw [program, ControlPlaneStore.extendLease]
  show (extendBody jobId leaseToken newExpiryMs nowMs).atomic CommitStep.persists step db db = _
  rw [extendBody, Body.atomic_attempt]
  rcases applyExtendLease db ⟨jobId, leaseToken, newExpiryMs⟩ nowMs with e | ⟨db', receipt⟩
  · rfl
  · cases step <;> rfl

theorem recover_atomic (transactionId : Id) (nowMs : Int64) (db : Db) :
    (recoverProgram transactionId nowMs).atomic CommitStep.persists step db =
      (db, .read (.recoverClaim transactionId nowMs)
        (.ok (recoverClaim db transactionId nowMs))) := by
  rw [recoverProgram, Program.atomic, recoverClaim]
  by_cases hrows : receiptsOf db transactionId = []
  · simp only [if_pos hrows, recoverMaintenance, Program.atomic]
    cases db.transaction transactionId <;> rfl
  · simp only [if_neg hrows, Program.atomic]

end Bodies

variable {τ η : Type} [DecidableEq τ] [DecidableEq η] {handle : τ → η} {writable : η → Bool}

omit [DecidableEq τ] [DecidableEq η] in
/-- A call as one step is that of the control plane. -/
theorem atomic_eq (request : Request) (step : CommitStep) (db : Db) :
    (service handle writable).atomic request step db =
      (match request.call step with
        | some call => ((ControlPlaneStore.mk db .live).answer call).1.db
        | none => db, request.answer db step) := by
  cases request with
  | commit limits batch => exact commit_atomic limits batch db
  | claimJobs request entropy => exact claim_atomic request entropy db
  | extendLease jobId leaseToken newExpiryMs nowMs =>
    exact extend_atomic jobId leaseToken newExpiryMs nowMs db
  | read query =>
    cases query with
    | recoverClaim transactionId nowMs => exact recover_atomic transactionId nowMs db
    | _ => rfl

omit [DecidableEq τ] [DecidableEq η] in
theorem serial_after (effects : List (Effect τ Request CommitStep)) :
    (service handle writable).serial.after effects = (controlPlane.after (callsOf effects)).db := by
  induction effects using List.reverseRecOn with
  | nil => rfl
  | append_singleton effects x ih =>
    rw [Machine.after_append_singleton, callsOf, List.filterMap_append, ← callsOf, ih]
    have hatomic : (service handle writable).atomic x.request x.ending _ = _ :=
      atomic_eq x.request x.ending (controlPlane.after (callsOf effects)).db
    rw [Machine.next, Service.serial, congrArg Prod.fst hatomic]
    cases hcall : x.request.call x.ending with
    | none => simp [hcall]
    | some call =>
      simp only [List.filterMap_cons, hcall, List.filterMap_nil, Machine.after_append_singleton]
      exact congrArg (fun s => ControlPlaneStore.db (Prod.fst s))
        (BackupLemmas.answer_writer _ (controlPlane.after (callsOf effects)).writer call).symm

/-! ## Looking twice -/

theorem rest_looked {answer : Db → Answer} {program : Program Db CommitStep Answer}
    (h : (Program.look fun db => .reply (answer db)).Rest program) :
    (∃ db, program = .reply (answer db)) ∨ program = .look fun db => .reply (answer db) := by
  induction h with
  | all => exact .inr rfl
  | look durable _ ih =>
    rcases ih with ⟨_, hreply⟩ | hlook
    · cases hreply
    · cases hlook
      exact .inl ⟨durable, rfl⟩

theorem rest_recover {transactionId : Id} {nowMs : Int64} {program : Program Db CommitStep Answer}
    (h : (recoverProgram transactionId nowMs).Rest program) :
    (∃ result, program = .reply (.read (.recoverClaim transactionId nowMs) result)) ∨
      program = recoverProgram transactionId nowMs ∨
      program = recoverMaintenance transactionId nowMs := by
  induction h with
  | all => exact .inr (.inl rfl)
  | look durable _ ih =>
    rcases ih with ⟨_, hreply⟩ | hlook | hlook
    · cases hreply
    · cases hlook
      by_cases hrows : receiptsOf durable transactionId = []
      · exact .inr (.inr (if_pos hrows))
      · exact .inl ⟨_, if_neg hrows⟩
    · cases hlook
      exact .inl ⟨_, rfl⟩

theorem rest_transaction {body : Body Db CommitStep Answer}
    {program : Program Db CommitStep Answer} (h : (Program.transaction body).Rest program) :
    program = .transaction body := by
  induction h with
  | all => rfl
  | look durable _ ih => cases ih

theorem rest_reply {answer : Answer} {program : Program Db CommitStep Answer}
    (h : (Program.reply answer).Rest program) : program = .reply answer := by
  induction h with
  | all => rfl
  | look durable _ ih => cases ih

/-- What can be left of a call that has begun. -/
theorem rest_cases {request : Request} {rest : Program Db CommitStep Answer}
    (h : (program request).Rest rest) :
    (∃ answer, rest = .reply answer) ∨ rest = program request ∨
      ∃ transactionId nowMs, request = .read (.recoverClaim transactionId nowMs) ∧
        rest = recoverMaintenance transactionId nowMs := by
  cases request with
  | commit limits batch =>
    rw [program] at h ⊢
    generalize validateBatch limits batch = valid at h ⊢
    cases valid with
    | error e => exact .inl ⟨_, rest_reply h⟩
    | ok _ => exact .inr (.inl (rest_transaction h))
  | claimJobs request entropy =>
    rw [program] at h ⊢
    generalize leaseExpiry request = expiry at h ⊢
    cases expiry with
    | error e => exact .inl ⟨_, rest_reply h⟩
    | ok expiryMs => exact .inr (.inl (rest_transaction h))
  | extendLease jobId leaseToken newExpiryMs nowMs =>
    exact .inr (.inl (rest_transaction h))
  | read query =>
    cases query with
    | recoverClaim transactionId nowMs =>
      rcases rest_recover h with ⟨_, hreply⟩ | hwhole | hsecond
      · exact .inl ⟨_, hreply⟩
      · exact .inr (.inl hwhole)
      · exact .inr (.inr ⟨transactionId, nowMs, rfl, hsecond⟩)
    | _ =>
      rcases rest_looked h with ⟨_, hreply⟩ | hwhole
      · exact .inl ⟨_, hreply⟩
      · exact .inr (.inl hwhole)

theorem exclusive_of_transaction {request : Request} {body : Body Db CommitStep Answer}
    (h : (program request).Rest (.transaction body)) : exclusive request = true := by
  cases request with
  | commit | claimJobs | extendLease => rfl
  | read query =>
    rcases rest_cases h with ⟨answer, hanswer⟩ | hwhole | ⟨_, _, -, hsecond⟩
    · cases hanswer
    · cases query <;> cases hwhole
    · cases hsecond

/-- A call that can write looks at nothing before its transaction. -/
theorem whole_of_call {request : Request} {step : CommitStep} {call : Call}
    (hcall : request.call step = some call) {rest : Program Db CommitStep Answer}
    (h : (program request).Rest rest) :
    (∃ answer, rest = .reply answer) ∨ rest = program request := by
  rcases rest_cases h with hreply | hwhole | ⟨_, _, rfl, -⟩
  · exact .inl hreply
  · exact .inr hwhole
  · cases hcall

/-- The receipts of a claim that is not on record are none. -/
theorem receiptsOf_eq_nil {db : Db} {transactionId : Id} (h : Resolves db) :
    receiptsOf db transactionId = [] ↔
      ∀ receipt ∈ db.claimReceipts.rows, receipt.transactionId ≠ transactionId := by
  constructor
  · intro hrows receipt hreceipt hid
    obtain ⟨job, hjob, hjobId⟩ := h.job receipt hreceipt
    have hfound : db.job receipt.jobId = some job := by rw [← hjobId]; exact job_of_mem hjob
    have hmem := ReceiptLemmas.mem_receiptsOf.mpr ⟨hreceipt, hid, hfound⟩
    rw [hrows] at hmem
    cases hmem
  · intro hnone
    refine List.eq_nil_iff_forall_not_mem.mpr fun ⟨receipt, job⟩ hrow => ?_
    obtain ⟨hreceipt, hid, -⟩ := ReceiptLemmas.mem_receiptsOf.mp hrow
    exact hnone receipt hreceipt hid

omit [DecidableEq τ] [DecidableEq η] in
/-- The second query of `recover_claim` is right as long as the claim has no receipts. -/
theorem agrees_recover {db : Db} {transactionId : Id} {nowMs : Int64} (h : Resolves db) :
    (service handle writable).Agrees (.read (.recoverClaim transactionId nowMs))
        (recoverMaintenance transactionId nowMs) db ↔
      ∀ receipt ∈ db.claimReceipts.rows, receipt.transactionId ≠ transactionId := by
  rw [← receiptsOf_eq_nil h]
  constructor
  · intro hagrees
    have hanswer := congrArg Prod.snd (hagrees CommitStep.done)
    rw [atomic_eq] at hanswer
    have hread : db.read (.recoverClaim transactionId nowMs) =
      .ok (recoverClaim db transactionId nowMs) := rfl
    by_contra hrows
    cases hfound : db.transaction transactionId <;>
      · simp only [recoverMaintenance, Program.atomic, hfound, Request.answer, hread, recoverClaim,
          if_neg hrows, Answer.read.injEq, heq_eq_eq, true_and] at hanswer
        cases Except.ok.inj hanswer
  · intro hrows step
    rw [atomic_eq]
    show _ = (db, Answer.read (.recoverClaim transactionId nowMs)
      (.ok (recoverClaim db transactionId nowMs)))
    rw [recoverClaim, if_pos hrows]
    cases hfound : db.transaction transactionId <;>
      simp only [recoverMaintenance, Program.atomic, hfound]

/-- A call that draws another id adds no receipts under this one. -/
theorem unreceipted_of_call {db db' : Db} {call : Call} {entries : List Entry}
    (heffect : CallEffect db call db' entries) {transactionId : Id}
    (hdrawn : transactionId ∉ call.drawn)
    (h : ∀ receipt ∈ db.claimReceipts.rows, receipt.transactionId ≠ transactionId) :
    ∀ receipt ∈ db'.claimReceipts.rows, receipt.transactionId ≠ transactionId := by
  intro receipt hreceipt hid
  have hgrant := List.mem_map_of_mem (f := ClaimReceiptRow.grant) hreceipt
  rw [heffect.receipts] at hgrant
  rcases List.mem_append.mp hgrant with hold | hnew
  · obtain ⟨old, hmem, hsame⟩ := List.mem_map.mp hold
    exact h old hmem ((congrArg Grant.transactionId hsame).trans hid)
  · obtain ⟨entry, hentry, hmem⟩ := List.mem_flatMap.mp hnew
    have hentryId := (Entry.grants_transactionId hmem).symm.trans hid
    cases entry with
    | batch b => cases hmem
    | claim _ request jobs =>
      obtain ⟨entropy, step, staged, rfl, -, staging, rfl, -⟩ := heffect.of_claim hentry
      obtain ⟨_, _, hwrite⟩ := stageClaim_write staging
      exact hdrawn (hentryId ▸ hwrite.id_drawn)

end ConcurrencyLemmas

open ConcurrencyLemmas

section Stores

variable {τ η : Type} [DecidableEq τ] [DecidableEq η] (handle : τ → η) (writable : η → Bool)

/-- Nobody asks for the outcome of a claim that is still being made through another store. -/
def Unclaimed (events : List (Threads.Event τ η Request CommitStep StorageError)) : Prop :=
  ∀ k t u transactionId nowMs program request entropy working body,
    ((service handle writable).machine.stateAt events k).threads t =
      .connected (.read (.recoverClaim transactionId nowMs)) program →
    ((service handle writable).machine.stateAt events k).threads u =
      .inside (.claimJobs request entropy) working body →
    handle t ≠ handle u → transactionId ∉ entropy.map Id.ofRandom

theorem undisturbed_of_unclaimed {events : List (Threads.Event τ η Request CommitStep StorageError)}
    (h : Unclaimed handle writable events) : (service handle writable).Undisturbed events := by
  refine Service.undisturbed_of_handles ?_ (fun _ _ => exclusive_of_transaction) ?_
  · intro request hshared program hrest
    rcases rest_cases hrest with hreply | hwhole | ⟨_, _, rfl, -⟩
    · exact .inl hreply
    · exact .inr hwhole
    · cases hshared
  intro k x working body hx hinside t request program hconnected hhandle hwhole hreachable hagrees
  obtain ⟨hreply, hrest, -⟩ :=
    ((service handle writable).guarded_stateAt events k).connected t request program hconnected
  generalize ((service handle writable).machine.stateAt events k).durable = db at *
  obtain ⟨calls, rfl⟩ := hreachable
  rw [serial_after] at hagrees ⊢
  rcases rest_cases hrest with ⟨answer, hanswer⟩ | hsame | ⟨transactionId, nowMs, rfl, rfl⟩
  · exact absurd hanswer (hreply answer)
  · exact absurd hsame hwhole
  have hresolves := resolves_after (callsOf calls)
  rw [agrees_recover hresolves] at hagrees
  rw [atomic_eq]
  cases hcall : x.request.call x.ending with
  | none => exact (agrees_recover hresolves).mpr hagrees
  | some call =>
    have heffect := next_effect (ControlPlaneStore.mk (controlPlane.after (callsOf calls)).db .live)
      call
    have hdrawn : transactionId ∉ call.drawn := by
      cases hrequest : x.request with
      | claimJobs request entropy =>
        rw [hrequest] at hcall hinside
        cases hcall
        exact h k t x.thread transactionId nowMs _ request entropy working body hconnected hinside
          hhandle
      | commit | extendLease => rw [hrequest] at hcall; cases hcall; exact List.not_mem_nil
      | read => rw [hrequest] at hcall; cases hcall
    exact (agrees_recover (heffect.resolves hresolves)).mpr
      (unreceipted_of_call heffect hdrawn hagrees)

/-- The calls that have taken effect in the first `k` steps. -/
def made (events : List (Threads.Event τ η Request CommitStep StorageError)) (k : Nat) :
    List Call :=
  callsOf ((service handle writable).effects (events.take k))

/-- The threads see one store that makes one call after the other. -/
structure Linearized (events : List (Threads.Event τ η Request CommitStep StorageError)) :
    Prop where
  /-- The file is what these calls make of it. -/
  durable : ∀ k ≤ events.length, ((service handle writable).machine.stateAt events k).durable =
    (controlPlane.after (made handle writable events k)).db
  /-- Each of them takes effect once, after it was made. -/
  grows : ∀ k, made handle writable events (k + 1) = made handle writable events k ∨
    ∃ x call, (service handle writable).effectAt events k = some x ∧
      x.request.call x.ending = some call ∧
      made handle writable events (k + 1) = made handle writable events k ++ [call] ∧
      ∃ i, (service handle writable).Calling events x.thread x.request i k ∧
        (service handle writable).Quiet events x.thread i k
  /-- An answer is that of the moment at which the call took effect. -/
  served : ∀ k r, (service handle writable).machine.replyAt events k = some (some r) →
    r.served = true → ∃ i m step, i < m ∧ m < k ∧
      (service handle writable).Calling events r.thread r.request i k ∧
      (service handle writable).effectAt events m = some ⟨r.thread, r.request, step⟩ ∧
      (service handle writable).Quiet events r.thread i m ∧
      (service handle writable).Quiet events r.thread (m + 1) k ∧
      r.answer = r.request.answer (controlPlane.after (made handle writable events m)).db step ∧
      ∀ call, r.request.call step = some call →
        made handle writable events (m + 1) = made handle writable events m ++ [call]
  /-- A call that was refused has done nothing. -/
  refused : ∀ k r, (service handle writable).machine.replyAt events k = some (some r) →
    r.served = false → ∃ i, (service handle writable).Calling events r.thread r.request i k ∧
      (service handle writable).Quiet events r.thread i k ∧
      ∃ error, r.answer = Handles.refusal r.request error

variable {handle writable}

/-- Any interleaving of any number of threads and stores, with refusals of the storage and
crashes anywhere, where nobody asks for a claim that is being made through another store. -/
theorem linearized_of_unclaimed
    {events : List (Threads.Event τ η Request CommitStep StorageError)}
    (h : Unclaimed handle writable events) : Linearized handle writable events := by
  have hundisturbed := undisturbed_of_unclaimed handle writable h
  have hdurable : ∀ k ≤ events.length,
      ((service handle writable).machine.stateAt events k).durable =
        (controlPlane.after (made handle writable events k)).db := fun k hk => by
    rw [Service.durable_serial _ hundisturbed hk, serial_after, made]
  have hmade : ∀ k, made handle writable events (k + 1) = made handle writable events k ++
      callsOf ((service handle writable).effectAt events k).toList := fun k => by
    rw [made, Service.effects_succ, callsOf, List.filterMap_append, ← callsOf, ← callsOf, ← made]
  refine ⟨hdurable, fun k => ?_, fun k r hr hserved => ?_,
    fun k r hr => Service.refused_quiet hr⟩
  · rw [hmade]
    cases hx : (service handle writable).effectAt events k with
    | none => exact .inl (List.append_nil _)
    | some x =>
      cases hcall : x.request.call x.ending with
      | none => exact .inl (by simp [callsOf, hcall])
      | some call =>
        exact .inr ⟨x, call, rfl, hcall, by simp [callsOf, hcall],
          Service.invoked_of_effect hx⟩
  · obtain ⟨i, hcalling, m, step, him, hmk, heffect, hanswer, hbefore, hafter⟩ :=
      Service.linearized hundisturbed hr hserved
    rw [Service.serial_replyAt hundisturbed heffect, atomic_eq] at hanswer
    refine ⟨i, m, step, him, hmk, hcalling, heffect, hbefore, hafter, ?_, fun call hcall => ?_⟩
    · have hm : m ≤ events.length := Nat.le_of_lt (Nat.lt_trans hmk (Service.response_eq hr).1)
      rw [← hdurable m hm]
      exact (Option.some.inj hanswer).symm
    · rw [hmade, heffect]
      simp [callsOf, hcall]

/-- Threads that share one store need no care. -/
theorem unclaimed_of_shared (one : ∀ t u, handle t = handle u)
    (events : List (Threads.Event τ η Request CommitStep StorageError)) :
    Unclaimed handle writable events :=
  fun _ t u _ _ _ _ _ _ _ _ _ hne => absurd (one t u) hne

-- Two stores do need some: this claim has leased a job.
example : ((service id fun _ => true).machine.replyAt Sample.race 32).any (fun r => r.any fun r =>
    match r.answer with
    | .read (.recoverClaim ..) (.ok (.maintenanceCommitted _)) => true
    | _ => false) = true := by decide +kernel

/-- No call of a store that was opened for writing waits for ever: whatever its threads have done
so far, they can go on with their calls so that this one gets the answer that an undisturbed
call gets. -/
theorem served_at_last (one : ∀ t u, handle t = handle u)
    (events : List (Threads.Event τ η Request CommitStep StorageError)) {t : τ}
    (writes : writable (handle t) = true) {request : Request}
    (h : (((service handle writable).machine.after events).threads t).pending = some request) :
    ∃ more answer m, (∀ e ∈ more, (service handle writable).Progress e) ∧ events.length ≤ m ∧
      (service handle writable).machine.replyAt (events ++ (more ++ [.respond t]))
        (events ++ more).length = some (some ⟨t, request, answer, true⟩) ∧
      answer = request.answer (controlPlane.after
        (made handle writable (events ++ (more ++ [.respond t])) m)).db .done := by
  obtain ⟨more, answer, hmore, hreply⟩ := Service.unblocked (S := service handle writable) writes h
  obtain ⟨i, m, step, him, hmk, hcalling, heffect, -, -, hanswer, -⟩ :=
    (linearized_of_unclaimed (unclaimed_of_shared one _)).served _ _ hreply rfl
  have hm : events.length ≤ m := by
    have hpending : (((service handle writable).machine.stateAt
        (events ++ (more ++ [.respond t])) events.length).threads t).pending = some request := by
      rw [Machine.stateAt_append_of_le _ _ (Nat.le_refl _), Machine.stateAt_length]
      exact h
    exact Service.effect_later (by simp) hpending hcalling (by simp) him heffect
  refine ⟨more, answer, m, hmore, hm, hreply, ?_⟩
  obtain ⟨e, he, hx⟩ := Option.bind_eq_some_iff.mp heffect
  have hmem : e ∈ more := by
    rw [List.getElem?_append_right hm, List.getElem?_append_left (by simp at hmk; omega)] at he
    exact List.mem_of_getElem? he
  have hdone : step = .done := Service.ending_of_progress (hmore e hmem) hx
  rw [hdone] at hanswer
  exact hanswer

theorem served_at_last_sample : ∃ more answer m,
    (∀ e ∈ more, (service (fun _ : Bool => ()) fun _ => true).Progress e) ∧
      Sample.waiting.length ≤ m ∧
      (service (fun _ => ()) fun _ => true).machine.replyAt
        (Sample.waiting ++ (more ++ [.respond false])) (Sample.waiting ++ more).length =
        some (some ⟨false, Sample.claimRequest, answer, true⟩) ∧
      answer = Sample.claimRequest.answer (controlPlane.after (made (fun _ => ()) (fun _ => true)
        (Sample.waiting ++ (more ++ [.respond false])) m)).db .done :=
  served_at_last (fun _ _ => rfl) Sample.waiting rfl rfl

/-- Stores that were opened for writing, and stores that were opened by `open_existing`, on one
file. Only calls of the former change the file. What one of the latter answers to a `commit`, a
`claim_jobs` or an `extend_lease` is that the storage has refused it, which has done nothing;
or it is what the call answers that, at this moment, changes nothing. -/
theorem readOnly_stores (events : List (Threads.Event τ η Request CommitStep StorageError)) :
    (∀ k, ((service handle writable).machine.stateAt events (k + 1)).durable ≠
        ((service handle writable).machine.stateAt events k).durable →
      ∃ x, (service handle writable).effectAt events k = some x ∧
        writable (handle x.thread) = true) ∧
    ∀ k r call, (service handle writable).machine.replyAt events k = some (some r) →
      writable (handle r.thread) = false → r.request.call .done = some call →
      ∃ i, (service handle writable).Calling events r.thread r.request i k ∧
        ((service handle writable).Quiet events r.thread i k ∧
            (∃ error, r.answer = Handles.refusal r.request error) ∨
          ∃ m, i < m ∧ m < k ∧
            let db := ((service handle writable).machine.stateAt events m).durable
            ((ControlPlaneStore.mk db .live).answer call).1.db = db ∧
              r.answer = r.request.answer db .done) := by
  refine ⟨fun k => Service.writable_of_changed, fun k r call hr hreadOnly hcall => ?_⟩
  cases hserved : r.served with
  | false =>
    obtain ⟨i, hcalling, hquiet, herror⟩ := Service.refused_quiet hr hserved
    exact ⟨i, hcalling, .inl ⟨hquiet, herror⟩⟩
  | true =>
    obtain ⟨i, hcalling, m, ending, htook⟩ := Service.tookEffect_of_served hr hserved
    refine ⟨i, hcalling, .inr ⟨m, htook.after, htook.before, ?_⟩⟩
    have hatomic : (service handle writable).atomic r.request CommitStep.done _ = _ :=
      htook.of_readOnly hreadOnly fun _ => whole_of_call hcall
    rw [atomic_eq, hcall] at hatomic
    obtain ⟨hdb, hanswer⟩ := Prod.mk.inj hatomic
    exact ⟨hdb, hanswer.symm⟩

-- There is nothing to claim, which a store for reading only can say too.
example : (service (fun _ : Bool => ()) fun _ => false).machine.replyAt
    [.invoke true Sample.claimRequest, .acquire true, .begin true, .respond true] 3 =
      some (some ⟨true, Sample.claimRequest, .claimJobs (.ok .noop), true⟩) := rfl

end Stores

end Minisqlite
