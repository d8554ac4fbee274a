import Minisqlite.Attempts
import Minisqlite.Effects.Total
import Minisqlite.References

/-!
# The columns of a job row

The state of a job says which of its other columns are set. The CHECKs of the
table enforce a part of this; here is all of it, and that no statement ever runs
into one of them.

* `Columns`: the invariant of a row. `columns_step`: every row step keeps it.
* `applyOperation_storage`, `writeClaim_total`: no statement on `jobs` fails.
* `claim_fails_early`: so a claim fails before its first one.
* `job_rows_legal`: every reachable state.
-/

namespace Minisqlite

open Tables Runs EffectLemmas TotalLemmas ClaimLemmas AttemptLemmas ReferenceLemmas

/-- What the state of a job says about its other columns. -/
structure JobRow.Columns (job : JobRow) : Prop where
  lease : job.state = .leased →
    job.leaseToken.isSome ∧ job.workerId.isSome ∧ job.leaseExpiresAtMs.isSome
  noLease : job.state ≠ .leased →
    job.leaseToken = none ∧ job.workerId = none ∧ job.leaseExpiresAtMs = none
  retry : job.retryAfterMs.isSome ↔ job.state = .retryWait
  terminal : job.terminalAtMs.isSome ↔ job.state.isTerminal = true
  digest : job.resultDigest.isSome → job.state = .succeeded
  attempted : job.state ≠ .pending → job.state ≠ .cancelled → 1 ≤ job.attempt

namespace ColumnLemmas

/-! ## Operations -/

section Operations

variable {db : Db} {tid : Id} {now : Int64} {s : StorageError}

theorem requireJob_storage {jobId : Id} : requireJob db jobId ≠ .error (.storage s) := by
  unfold requireJob
  split <;> simp [invalid]

theorem ensureTransition_storage {job : JobRow} {target : JobState} :
    ensureTransition job target ≠ .error (.storage s) := by
  unfold ensureTransition
  split <;> simp

theorem ensureLeaseToken_storage {job : JobRow} {token : Id} :
    ensureLeaseToken job token ≠ .error (.storage s) := by
  unfold ensureLeaseToken
  split <;> simp [invalid]

theorem ok_of_total {ε α : Type} {x : Except ε α} {e : ε} (h : ∃ a, x = .ok a) : x ≠ .error e := by
  obtain ⟨a, rfl⟩ := h
  simp

/-- The row that the guards have found, under its own id. -/
theorem found_of_require {jobId : Id} {job : JobRow} (h : requireJob db jobId = .ok job) :
    db.job job.spec.jobId = some job := by
  have hjob := requireJob_ok.mp h
  rwa [job_id hjob]

theorem applyAck_storage {ack : JobAck} : applyAck db tid now ack ≠ .error (.storage s) := by
  intro h
  rcases bind_error h with h | ⟨job, hjob, h⟩
  · exact requireJob_storage h
  rcases bind_error h with h | ⟨_, -, h⟩
  · exact ensureTransition_storage h
  rcases bind_error h with h | ⟨_, -, h⟩
  · exact ensureLeaseToken_storage h
  · exact ok_of_total (setTerminal_total (found_of_require hjob) rfl _ _ _ _) h

theorem applyFail_storage {failure : JobFailure} :
    applyFail db tid now failure ≠ .error (.storage s) := by
  intro h
  rcases bind_error h with h | ⟨job, hjob, h⟩
  · exact requireJob_storage h
  rcases bind_error h with h | ⟨_, htransition, h⟩
  · exact ensureTransition_storage h
  rcases bind_error h with h | ⟨_, htoken, h⟩
  · exact ensureLeaseToken_storage h
  have found := found_of_require hjob
  split at h
  · exact ok_of_total (setTerminal_total found rfl _ _ _ _) h
  · rcases bind_error h with h | ⟨retryAfterMs, -, h⟩
    · unfold retryAfter at h
      split at h
      · cases h
      · split at h <;> simp [invalid] at h
    have hactive : job.state.isTerminal = false := by
      rw [leased_of_token found (ensureLeaseToken_ok.mp htoken)]
      rfl
    rcases bind_error h with h | ⟨db₁, hset, h⟩
    · exact ok_of_total (setNonterminal_total found hactive rfl (by decide) (fun _ => rfl) _) h
    · -- The summary is no column that a CHECK reads.
      obtain ⟨jobs, rfl, hrows⟩ := updateJob_ok hset
      let waiting := (JobUpdate.nonterminal .retryWait (some retryAfterMs) tid).set job
      have found₁ : Db.job { db with jobs := jobs } job.spec.jobId = some waiting := by
        have hmap : Db.job { db with jobs := jobs } job.spec.jobId = _ := job_map hrows _
        rw [hmap, if_pos rfl, found]
        rfl
      have hwaiting : waiting.check = true := check_of_found found₁
      have hcheck : ((JobUpdate.summary failure.errorSummary).set waiting).check = true := hwaiting
      exact ok_of_total (updateJob_total found₁ hcheck) h

theorem applyCancel_storage {cancellation : JobCancellation} :
    applyCancel db tid now cancellation ≠ .error (.storage s) := by
  intro h
  rcases bind_error h with h | ⟨job, hjob, h⟩
  · exact requireJob_storage h
  rcases bind_error h with h | ⟨_, -, h⟩
  · exact ensureTransition_storage h
  rcases bind_error h with h | ⟨_, -, h⟩
  · unfold ensureCancellable at h
    split at h
    · exact ensureLeaseToken_storage h
    · split at h <;> simp [invalid] at h
  · exact ok_of_total (setTerminal_total (found_of_require hjob) rfl _ _ _ _) h

theorem applyResolve_storage {resolution : JobResolution} :
    applyResolve db tid now resolution ≠ .error (.storage s) := by
  intro h
  rcases bind_error h with h | ⟨job, hjob, h⟩
  · exact requireJob_storage h
  have found := found_of_require hjob
  have hterminal {state : JobState} {summary : Option String} (hstate : state.isTerminal = true) :
      (ensureTransition job state >>= fun _ => setTerminal db job state now tid none summary) ≠
        .error (.storage s) := by
    intro h
    rcases bind_error h with h | ⟨_, -, h⟩
    · exact ensureTransition_storage h
    · exact ok_of_total (setTerminal_total found hstate _ _ _ _) h
  split at h
  · split at h
    · exact hterminal rfl h
    · rcases bind_error h with h | ⟨_, htransition, h⟩
      · exact ensureTransition_storage h
      · have hactive : job.state.isTerminal = false := by
          rcases resolvable_of_transition (.inl rfl) (ensureTransition_ok.mp htransition) with
            hs | hs <;> rw [hs] <;> rfl
        exact ok_of_total (setNonterminal_total found hactive rfl (by decide) (by simp) _) h
  · exact hterminal rfl h
  · exact hterminal rfl h

/-- An extension fails with a conflict and with nothing else. -/
theorem applyExtendLease_error {extension : LeaseExtension} {e : LeaseError}
    (h : applyExtendLease db extension now = .error e) : ∃ conflict, e = .conflict conflict := by
  unfold applyExtendLease at h
  simp only [conflicting] at h
  split at h
  · cases h; exact ⟨_, rfl⟩
  next job hjob =>
  split at h
  · cases h; exact ⟨_, rfl⟩
  next hleased =>
  split at h
  · cases h; exact ⟨_, rfl⟩
  split at h
  · cases h; exact ⟨_, rfl⟩
  split at h
  · cases h; exact ⟨_, rfl⟩
  have found : db.job job.spec.jobId = some job := by rwa [job_id hjob]
  rw [← job_id hjob] at h
  rcases bind_error h with h | ⟨db₁, -, h⟩
  · exact absurd h (ok_of_total (updateJob_total found
      (check_expiry (check_of_found found) (not_not.mp hleased) _)))
  -- The receipts have no CHECK.
  obtain ⟨receipts, hreceipts⟩ : ∃ receipts, db₁.claimReceipts.update
      (fun r => decide (r.jobId = job.spec.jobId) && decide (r.leaseToken = extension.leaseToken))
      (fun r => { r with leaseExpiresAtMs := extension.newExpiryMs })
      (Schema.keyed_keeps fun _ => rfl) = some receipts := Table.update_isSome fun _ _ _ => rfl
  rw [hreceipts] at h
  cases h

/-- The insert of a valid job fails only for want of a sequence. -/
theorem applyEnqueue_storage {spec : JobSpec} (hmax : spec.maxAttempts ≠ 0)
    (hrecorded : db.Recorded tid) (h : applyEnqueue db tid spec = .error (.storage s)) :
    nextSequence (db.jobs.rows.map JobRow.enqueueSequence) = none := by
  unfold applyEnqueue at h
  split at h
  · simp [invalid] at h
  next hfree =>
  cases hsequence : nextSequence (db.jobs.rows.map JobRow.enqueueSequence) with
  | none => rfl
  | some sequence =>
    have hcheck : (spec.row sequence tid).check = true :=
      check_iff.mpr ⟨UInt32.pos_iff_ne_zero.mpr hmax, by simp [JobSpec.row],
        fun _ => ⟨rfl, rfl, rfl⟩, by simp [JobSpec.row], by simp [JobSpec.row, JobState.isTerminal]⟩
    have hclash : ∀ job ∈ db.jobs.rows, jobsSchema.clash job (spec.row sequence tid) = false := by
      intro job hjob
      have hid := Table.lookup_eq_none.mp hfree job hjob
      have hlt := lt_nextSequence hsequence _ (List.mem_map_of_mem hjob)
      simpa [jobsSchema, JobSpec.row] using And.intro hid (Int64.ne_of_lt hlt)
    obtain ⟨jobs, hinsert⟩ := Table.insert_isSome hcheck hclash
    rw [hsequence, requireTransaction_recorded hrecorded] at h
    simp only [execute, bind, Except.bind, hinsert] at h
    cases h

/-- No statement of an operation on a job fails, but for a job number past the
largest. -/
theorem applyOperation_storage {limits : Limits} {batch : CommitBatch} {tx : OpenBatch}
    {op : Operation} {jobId : Id} (about : op.jobId = some jobId)
    (valid : validateOperation limits op = .ok ()) (hrecorded : tx.db.Recorded batch.transactionId)
    (h : applyOperation batch tx op = .error (.storage s)) : ∃ spec, op = .enqueueJob spec ∧
      nextSequence (tx.db.jobs.rows.map JobRow.enqueueSequence) = none := by
  have hrun {result : Except Error Db} (h : tx.run result = .error (.storage s)) :
      result = .error (.storage s) := by
    rcases bind_error h with h | ⟨_, -, h⟩
    · cases result with
      | ok db => cases h
      | error e =>
        cases e with
        | storage e => cases h; rfl
        | _ => cases h
    · cases h
  cases op with
  | appendEvent event => cases about
  | projectionPatch patch => cases about
  | enqueueJob spec =>
    refine ⟨spec, rfl, applyEnqueue_storage ?_ hrecorded (hrun h)⟩
    obtain ⟨_, -, valid⟩ := bind_ok valid
    obtain ⟨_, hmax, -⟩ := bind_ok valid
    intro hzero
    simp [reject, hzero] at hmax
  | ackJob ack => exact absurd (hrun h) applyAck_storage
  | failJob failure => exact absurd (hrun h) applyFail_storage
  | cancelJob cancellation => exact absurd (hrun h) applyCancel_storage
  | resolveJob resolution => exact absurd (hrun h) applyResolve_storage
  | extendLease extension =>
    rcases bind_error h with h | ⟨_, -, h⟩
    · cases hextend : applyExtendLease tx.db extension batch.committedAtMs with
      | ok result => rw [hextend] at h; cases h
      | error e =>
        obtain ⟨conflict, rfl⟩ := applyExtendLease_error hextend
        rw [hextend] at h
        cases h
    · cases h

end Operations

/-! ## Claims -/

section Claims

variable {db : Db} {request : ClaimRequest} {tid : Id}

/-- The repairs of a plan: each job is there, as the plan has found it. -/
structure Repairable (actions : List MaintenanceAction) (db : Db) : Prop where
  target : ∀ action ∈ actions, action.target = action.job.expiredTo
  leased : ∀ action ∈ actions, action.job.state = .leased
  nodup : (actions.map fun action => action.job.spec.jobId).Nodup
  stored : ∀ action ∈ actions, db.job action.job.spec.jobId = some action.job

theorem applyMaintenance_total (tid : Id) (now : Int64) {action : MaintenanceAction}
    (htarget : action.target = action.job.expiredTo) (hleased : action.job.state = .leased)
    (found : db.job action.job.spec.jobId = some action.job) :
    ∃ db', applyMaintenance tid now db action = .ok db' := by
  have hactive : action.job.state.isTerminal = false := by rw [hleased]; rfl
  have htransition : ensureTransition action.job action.target = .ok () := by
    rw [ensureTransition_ok, hleased, htarget]
    rcases expiredTo_cases action.job with hto | ⟨hto, -⟩ | ⟨hto, -⟩ <;> rw [hto] <;> rfl
  unfold applyMaintenance
  rw [htransition, htarget]
  rcases expiredTo_cases action.job with hto | ⟨hto, -⟩ | ⟨hto, -⟩ <;> rw [hto]
  · exact setNonterminal_total found hactive rfl (by decide) (by simp) tid
  · exact setNonterminal_total found hactive rfl (by decide) (by simp) tid
  · exact setTerminal_total found rfl now tid _ _

/-- Every repair of the plan goes through. -/
theorem maintenance_total (tid : Id) (now : Int64) {actions : List MaintenanceAction}
    (h : Repairable actions db) :
    ∃ db', actions.foldlM (applyMaintenance tid now) db = .ok db' := by
  have step : ∀ action actions d, Repairable (action :: actions) d →
      ∃ d', applyMaintenance tid now d action = .ok d' ∧ Repairable actions d' := by
    intro action actions d h
    have htarget := h.target action List.mem_cons_self
    obtain ⟨d', hd'⟩ := applyMaintenance_total tid now htarget
      (h.leased action List.mem_cons_self) (h.stored action List.mem_cons_self)
    have hnodup := List.nodup_cons.mp h.nodup
    refine ⟨d', hd', fun a ha => h.target a (List.mem_cons_of_mem _ ha),
      fun a ha => h.leased a (List.mem_cons_of_mem _ ha), hnodup.2, fun a ha => ?_⟩
    have hother : a.job.spec.jobId ≠ action.job.spec.jobId := fun he =>
      hnodup.1 (List.mem_map.mpr ⟨a, ha, he⟩)
    rw [job_map (applyMaintenance_ok htarget hd').1.rows, if_neg hother]
    exact h.stored a (List.mem_cons_of_mem _ ha)
  obtain ⟨db', hdb', -⟩ := foldlM_total step h
  exact ⟨db', hdb'⟩

/-- The leases of a plan: each job is there, as the plan has found it, and has no
receipt of this claim yet. -/
structure Grantable (tid : Id) (leases : List ProposedLease) (db : Db) : Prop where
  recorded : db.Recorded tid
  active : ∀ lease ∈ leases, lease.job.state.isTerminal = false
  nodup : (leases.map fun lease => lease.job.spec.jobId).Nodup
  stored : ∀ lease ∈ leases, db.job lease.job.spec.jobId = some lease.job
  free : ∀ lease ∈ leases, ∀ r ∈ db.claimReceipts.rows,
    (r.transactionId, r.jobId) ≠ (tid, lease.job.spec.jobId)

theorem grantLease_total (request : ClaimRequest) (expiryMs : Int64) {lease : ProposedLease}
    (hrecorded : db.Recorded tid) (hactive : lease.job.state.isTerminal = false)
    (found : db.job lease.job.spec.jobId = some lease.job)
    (hfree : ∀ r ∈ db.claimReceipts.rows,
      (r.transactionId, r.jobId) ≠ (tid, lease.job.spec.jobId)) :
    ∃ db', grantLease tid request expiryMs db lease = .ok db' := by
  obtain ⟨d₁, hupdate⟩ := updateJob_total (ε := Error) found
    (check_lease (check_of_found found) hactive lease.leaseToken request.workerId expiryMs tid)
  have hjobs := updateJob_ok hupdate
  obtain ⟨jobs, rfl, -⟩ := hjobs
  have hrequire : Db.requireTransaction { db with jobs := jobs } tid = some () :=
    requireTransaction_recorded hrecorded
  obtain ⟨receipts, hinsert⟩ := Table.insert_isSome (t := db.claimReceipts)
    (r := lease.receipt tid request expiryMs) rfl fun r hr => decide_eq_false (hfree r hr)
  exact ⟨_, bind_eq_ok.mpr ⟨_, hupdate, bind_eq_ok.mpr ⟨(), execute_ok.mpr hrequire,
    bind_eq_ok.mpr ⟨receipts, execute_ok.mpr hinsert, rfl⟩⟩⟩⟩

/-- Every lease of the plan is granted. -/
theorem leases_total (request : ClaimRequest) (expiryMs : Int64) {leases : List ProposedLease}
    (h : Grantable tid leases db) :
    ∃ db', leases.foldlM (grantLease tid request expiryMs) db = .ok db' := by
  have step : ∀ lease leases d, Grantable tid (lease :: leases) d →
      ∃ d', grantLease tid request expiryMs d lease = .ok d' ∧ Grantable tid leases d' := by
    intro lease leases d h
    obtain ⟨d', hd'⟩ := grantLease_total request expiryMs h.recorded
      (h.active lease List.mem_cons_self) (h.stored lease List.mem_cons_self)
      (h.free lease List.mem_cons_self)
    have hgrant := grantLease_ok hd'
    obtain ⟨jobs, receipts, rfl, hwrite, hreceipts⟩ := hgrant
    have hnodup := List.nodup_cons.mp h.nodup
    have hother : ∀ l ∈ leases, l.job.spec.jobId ≠ lease.job.spec.jobId := fun l hl he =>
      hnodup.1 (List.mem_map.mpr ⟨l, hl, he⟩)
    refine ⟨_, hd', h.recorded, fun l hl => h.active l (List.mem_cons_of_mem _ hl), hnodup.2,
      fun l hl => ?_, fun l hl r hr => ?_⟩
    · rw [job_map hwrite.rows, if_neg (hother l hl)]
      exact h.stored l (List.mem_cons_of_mem _ hl)
    · rw [hreceipts] at hr
      rcases List.mem_append.mp hr with hr | hr
      · exact h.free l (List.mem_cons_of_mem _ hl) r hr
      · obtain rfl := List.mem_singleton.mp hr
        exact fun he => hother l hl (Prod.mk.inj he).2.symm
  obtain ⟨db', hdb', -⟩ := foldlM_total step h
  exact ⟨db', hdb'⟩

/-- Once a claim has its transaction row, nothing can fail any more. -/
theorem writeClaim_total (hdb : Resolves db) {entropy rest : Entropy} {plan : LeasePlan} {db₁ : Db}
    (expiryMs : Int64) (hplan : planLeases db request entropy = .ok plan)
    (hnew : Id.new plan.entropy = .ok (tid, rest))
    (hinsert : insertClaimTransaction db tid request
      ((planMaintenance db request).length + plan.leases.length) = .ok db₁) :
    ∃ staged, writeClaim db request expiryMs (planMaintenance db request) plan = .ok staged := by
  have htransaction := insertClaimTransaction_ok hinsert
  obtain ⟨transactions, sequence, rfl, -, hrows, hfree⟩ := htransaction
  have htarget : ∀ action ∈ planMaintenance db request, action.target = action.job.expiredTo :=
    fun _ haction => (planMaintenance_spec haction).2.2
  have hrepairable : Repairable (planMaintenance db request)
      { db with transactions := transactions } :=
    ⟨htarget, fun a ha => (expiredIn_iff.mp (planMaintenance_spec ha).2.1).2.1,
      planMaintenance_nodup db request, fun a ha => job_of_mem (planMaintenance_spec ha).1⟩
  obtain ⟨db₂, hmaintenance⟩ := maintenance_total tid request.nowMs hrepairable
  obtain ⟨⟨jobs, parts, rfl⟩, -, hkept⟩ :=
    maintenance_ok htarget (planMaintenance_nodup db request) hmaintenance
  have hgrantable : Grantable tid plan.leases
      { db with transactions := transactions, jobs := jobs, activePartitions := parts } := by
    refine ⟨⟨_, hrows ▸ List.mem_append_right _ (List.mem_singleton_self _), rfl⟩,
      fun lease hlease => ?_, planLeases_nodup hplan, fun lease hlease => ?_,
      fun lease hlease r hr he => ?_⟩
    · rcases state_of_ready ((planLeases_spec hplan).1 lease hlease).1 with hs | hs <;> rw [hs] <;>
        rfl
    · rw [hkept _ fun a ha => plans_apart hplan hlease ha]
      exact job_of_mem (partitionHead_spec (planLeases_head hplan hlease)).1
    · -- The transaction is new, so no receipt has its id yet.
      obtain ⟨row, hrow, hid⟩ := hdb.claimed r hr
      exact hfree row hrow (hid.trans (Prod.mk.inj he).1)
  obtain ⟨db₃, hleases⟩ := leases_total request expiryMs hgrantable
  exact ⟨_, bind_eq_ok.mpr ⟨_, hnew, bind_eq_ok.mpr ⟨_, hinsert, bind_eq_ok.mpr ⟨_, hmaintenance,
    bind_eq_ok.mpr ⟨_, hleases, rfl⟩⟩⟩⟩⟩

end Claims

/-! ## The invariant -/

section Invariant

variable {job : JobRow}

theorem columns_row (spec : JobSpec) (sequence : Int64) (tid : Id) :
    (spec.row sequence tid).Columns where
  lease := nofun
  noLease _ := ⟨rfl, rfl, rfl⟩
  retry := by simp [JobSpec.row]
  terminal := by simp [JobSpec.row, JobState.isTerminal]
  digest := nofun
  attempted h := absurd rfl h

/-- The new row is terminal: a result only when the job has succeeded, and no
success without an attempt. -/
theorem columns_terminal {state : JobState} {digest : Option Bytes} (h : job.Columns)
    (hjob : job.state.isTerminal = false) (hstate : state.isTerminal = true)
    (hdigest : digest.isSome → state = .succeeded)
    (hattempt : state ≠ .cancelled → 1 ≤ job.attempt) (now : Int64) (tid : Id)
    (summary : Option String) :
    ((JobUpdate.terminal state now tid digest summary).set job).Columns where
  lease := by rintro (rfl : state = .leased); cases hstate
  noLease _ := ⟨rfl, rfl, rfl⟩
  retry := by
    refine ⟨nofun, ?_⟩
    rintro (rfl : state = .retryWait)
    cases hstate
  terminal := ⟨fun _ => hstate, fun _ => rfl⟩
  digest := by
    have hnone : job.resultDigest = none := by
      cases hd : job.resultDigest with
      | none => rfl
      | some d =>
        rw [h.digest (by rw [hd]; rfl)] at hjob
        cases hjob
    show (digest.or job.resultDigest).isSome → _
    rw [hnone, Option.or_none]
    exact hdigest
  attempted _ := hattempt

theorem columns_nonterminal {state : JobState} {retryAfterMs : Option Int64} (h : job.Columns)
    (hjob : job.state.isTerminal = false) (hstate : state.isTerminal = false)
    (hleased : state ≠ .leased) (hretry : retryAfterMs.isSome ↔ state = .retryWait)
    (hattempt : 1 ≤ job.attempt) (tid : Id) :
    ((JobUpdate.nonterminal state retryAfterMs tid).set job).Columns where
  lease he := absurd he hleased
  noLease _ := ⟨rfl, rfl, rfl⟩
  retry := hretry
  terminal := by
    show job.terminalAtMs.isSome ↔ state.isTerminal = true
    rw [h.terminal, hjob, hstate]
  digest hd := by
    rw [h.digest hd] at hjob
    cases hjob
  attempted _ _ := hattempt

/-- Only jobs that have been attempted are leased or uncertain. -/
theorem attempted_of_resolvable (h : job.Columns) (hjob : job.resolvable) : 1 ≤ job.attempt := by
  rcases hjob with hs | hs <;> exact h.attempted (by rw [hs]; decide) (by rw [hs]; decide)

theorem columns_operation {batch : CommitBatch} {op : Operation} {u : JobUpdate}
    (hstep : JobStep batch job op u) (h : job.Columns) : (u.set job).Columns := by
  have hactive := (RowStep.operation hstep).active
  cases hstep with
  | ack leased =>
    exact columns_terminal h hactive rfl (fun _ => rfl)
      (fun _ => attempted_of_resolvable h (.inl leased)) _ _ _
  | failDead leased =>
    exact columns_terminal h hactive rfl (by simp)
      (fun _ => attempted_of_resolvable h (.inl leased)) _ _ _
  | @failRetry _ retryAfterMs leased =>
    have hretry : (some retryAfterMs).isSome ↔ JobState.retryWait = .retryWait := by simp
    have hset := columns_nonterminal h hactive rfl (by decide) hretry
      (attempted_of_resolvable h (.inl leased)) batch.transactionId
    exact ⟨hset.lease, hset.noLease, hset.retry, hset.terminal, hset.digest, hset.attempted⟩
  | cancelPending =>
    exact columns_terminal h hactive rfl (by simp) (fun hno => absurd rfl hno) _ _ _
  | cancelLeased =>
    exact columns_terminal h hactive rfl (by simp) (fun hno => absurd rfl hno) _ _ _
  | resolveRetry resolvable =>
    exact columns_nonterminal h hactive rfl (by decide) (by simp)
      (attempted_of_resolvable h resolvable) _
  | resolveTerminal resolvable terminal =>
    exact columns_terminal h hactive terminal (by simp)
      (fun _ => attempted_of_resolvable h resolvable) _ _ _
  | extend leased =>
    obtain ⟨htoken, hworker, -⟩ := h.lease leased
    exact ⟨fun _ => ⟨htoken, hworker, rfl⟩, fun hno => absurd leased hno, h.retry, h.terminal,
      h.digest, h.attempted⟩

theorem columns_repair (h : job.Columns) (hleased : job.state = .leased) (tid : Id) (now : Int64) :
    ((job.repair tid now).set job).Columns := by
  have hactive := active_of_resolvable (.inl hleased)
  have hattempt := attempted_of_resolvable h (.inl hleased)
  unfold JobRow.repair
  rcases expiredTo_cases job with hto | ⟨hto, -⟩ | ⟨hto, -⟩ <;> rw [hto]
  · rw [if_neg (by decide)]
    exact columns_nonterminal h hactive rfl (by decide) (by simp) hattempt tid
  · rw [if_neg (by decide)]
    exact columns_nonterminal h hactive rfl (by decide) (by simp) hattempt tid
  · exact columns_terminal h hactive rfl (by simp) (fun _ => hattempt) _ _ _

theorem columns_step {u : JobUpdate} (hstep : RowStep job u) (hbounded : Bounded job)
    (h : job.Columns) : (u.set job).Columns := by
  have hactive := hstep.active
  cases hstep with
  | operation step => exact columns_operation step h
  | repair expired => exact columns_repair h (expiredIn_iff.mp expired).2.1 _ _
  | lease _ _ ready =>
    refine ⟨fun _ => ⟨rfl, rfl, rfl⟩, fun hno => absurd rfl hno, by simp [JobUpdate.lease], ?_,
      fun hd => ?_, fun _ _ => ?_⟩
    · show job.terminalAtMs.isSome ↔ _
      rw [h.terminal, hactive]
      rfl
    · rw [h.digest hd] at hactive
      cases hactive
    · rw [UInt32.le_iff_toNat_le]
      show 1 ≤ (job.attempt + 1).toNat
      rw [attempt_succ (hbounded.lt (state_of_ready ready))]
      omega

end Invariant

end ColumnLemmas

open ColumnLemmas

theorem columns_after (calls : List Call) :
    ∀ job ∈ (controlPlane.after calls).db.jobs.rows, Bounded job ∧ job.Columns :=
  rows_after (rowInvariant_of_rows
    (fun _ _ _ hcheck => ⟨bounded_row _ _ _ hcheck, columns_row _ _ _⟩)
    fun _ _ _ hstep h => ⟨bounded_step hstep h.1, columns_step hstep h.1 h.2⟩)
    (by simp [Db.empty, Table.empty]) calls

/-- Everything of a claim that can fail comes before its first write to `jobs`:
its checks, the draw of its ids and the INSERT of its transaction. -/
def FailsEarly (db : Db) (request : ClaimRequest) (entropy : Entropy) (e : Error) : Prop :=
  leaseExpiry request = .error e ∨ planLeases db request entropy = .error e ∨
    ∃ plan, planLeases db request entropy = .ok plan ∧ (Id.new plan.entropy = .error e ∨
      ∃ transactionId rest, Id.new plan.entropy = .ok (transactionId, rest) ∧
        insertClaimTransaction db transactionId request
          ((planMaintenance db request).length + plan.leases.length) = .error e)

theorem claim_fails_early {db : Db} (hdb : Resolves db) {request : ClaimRequest} {entropy : Entropy}
    {e : Error} (h : stageClaim db request entropy = .error e) :
    FailsEarly db request entropy e := by
  rcases bind_error h with h | ⟨expiryMs, -, h⟩
  · exact .inl h
  rcases bind_error h with h | ⟨plan, hplan, h⟩
  · exact .inr (.inl h)
  refine .inr (.inr ⟨plan, hplan, ?_⟩)
  split at h
  · cases h
  rcases bind_error h with h | ⟨_, -, h⟩
  · cases hnew : Id.new plan.entropy with
    | error e' =>
      rcases bind_error h with h | ⟨_, hok, -⟩
      · exact .inl (hnew ▸ h)
      · rw [hnew] at hok
        cases hok
    | ok drawn =>
      obtain ⟨tid, rest⟩ := drawn
      refine .inr ⟨tid, rest, rfl, ?_⟩
      cases hinsert : insertClaimTransaction db tid request
          ((planMaintenance db request).length + plan.leases.length) with
      | ok db₁ =>
        exact absurd h (ok_of_total (writeClaim_total hdb expiryMs hplan hnew hinsert))
      | error e' =>
        rw [writeClaim, hnew] at h
        rcases bind_error h with h | ⟨_, hok, h⟩
        · cases h
        cases hok
        rcases bind_error h with h | ⟨_, hok, -⟩
        · exact hinsert ▸ h
        · rw [hinsert] at hok
          cases hok
  · cases h

/-- Committing the batch gets to `op`, with the open transaction in the state `tx`. -/
def GetsTo (db : Db) (batch : CommitBatch) (op : Operation) (tx : OpenBatch) : Prop :=
  ∃ tx₀ receipt pre post, openBatch db batch = .ok (tx₀, receipt) ∧
    batch.operations = pre ++ op :: post ∧ pre.foldlM (applyOperation batch) tx₀ = .ok tx

/-- The row of a job in every reachable state has the columns that its state asks
for, and names a transaction. No statement on `jobs` violates a CHECK: an
operation of a batch, wherever it stands, fails on a statement only if it is an
`EnqueueJob` for which no sequence is left, so before its INSERT; a claim fails
only before its first statement on `jobs`; and an extension never fails on a
statement. -/
theorem job_rows_legal (calls : List Call) :
    (∀ job ∈ (controlPlane.after calls).db.jobs.rows, job.Columns ∧
      ∃ row ∈ (controlPlane.after calls).db.transactions.rows,
        row.transactionId = job.updatedTransactionId) ∧
    (∀ limits batch tx op jobId s, validateBatch limits batch = .ok () →
      GetsTo (controlPlane.after calls).db batch op tx → op.jobId = some jobId →
      applyOperation batch tx op = .error (.storage s) → ∃ spec, op = .enqueueJob spec ∧
        nextSequence (tx.db.jobs.rows.map JobRow.enqueueSequence) = none) ∧
    (∀ request entropy e, stageClaim (controlPlane.after calls).db request entropy = .error e →
      FailsEarly (controlPlane.after calls).db request entropy e) ∧
    ∀ extension nowMs e, applyExtendLease (controlPlane.after calls).db extension nowMs = .error e →
      ∃ conflict, e = .conflict conflict := by
  have hdb := resolves_after calls
  refine ⟨fun job hjob => ⟨(columns_after calls job hjob).2, hdb.updated job hjob⟩, ?_,
    fun request entropy e => claim_fails_early hdb, fun extension nowMs e => applyExtendLease_error⟩
  rintro limits batch tx op jobId s valid ⟨tx₀, receipt, pre, post, hopen, hops, hpre⟩ about happly
  have hvalid := validateBatch_operation valid op (by simp [hops])
  exact applyOperation_storage about hvalid
    (resolves_of_operations hpre (resolves_of_open hopen hdb)).1 happly

end Minisqlite
