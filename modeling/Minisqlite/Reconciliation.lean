import Minisqlite.Journal

/-!
# Jobs that require reconciliation

The effect of such a job may have happened although its lease expired, so the
job must not run again before somebody has said what became of it.

* `withheld_of_call`: after a grant, only a reported failure or a resolution
  for a retry lets go of the job.
* `granted_in_order`: the receipts of a job are its grants, claim by claim.
* `no_silent_reexecution`: there is a report or a resolution between any two
  grants.
-/

namespace Minisqlite

open Tables Runs

/-! ## Grants of a job that requires reconciliation -/

/-- Call `i` is a persisted claim that granted the lease of the receipt. -/
def Granted (calls : List Call) (i : Nat) (receipt : ClaimReceiptRow) : Prop :=
  ∃ request staged, ClaimPersisted calls i request staged ∧
    receipt.grant ∈ staged.jobs.map (ClaimedJob.grant staged.transactionId)

theorem Granted.lt_length {calls : List Call} {i : Nat} {receipt : ClaimReceiptRow}
    (h : Granted calls i receipt) : i < calls.length := by
  obtain ⟨_, _, ⟨_, _, hcall, -⟩, -⟩ := h
  exact (List.getElem?_eq_some_iff.mp hcall).1

/-- The operation reports a failure under the token or resolves the job for a retry. -/
def Operation.Reopens (op : Operation) (jobId token : Id) : Prop :=
  (∃ failure, op = .failJob failure ∧ failure.jobId = jobId ∧ failure.leaseToken = token) ∨
    op = .resolveJob ⟨jobId, .retry⟩

/-- Call `m` is a persisted batch with such an operation. -/
def ReopenedAt (calls : List Call) (m : Nat) (jobId token : Id) : Prop :=
  ∃ limits batch receipt, CommitPersisted calls m limits batch receipt ∧
    ∃ op ∈ batch.operations, op.Reopens jobId token

/-- The job runs under the token, or is uncertain, or is over. -/
def Withheld (db : Db) (jobId token : Id) : Prop :=
  ∃ job, db.job jobId = some job ∧ job.spec.effectMode = .requiresReconciliation ∧
    (job.state = .leased ∧ job.leaseToken = some token ∨ job.state = .uncertain ∨
      job.state.isTerminal = true)

/-- A withheld job is not ready at any time. -/
theorem Withheld.not_ready {db : Db} {jobId token : Id} (h : Withheld db jobId token) {job : JobRow}
    (hjob : db.job jobId = some job) (nowMs : Int64) : job.ready nowMs = false := by
  obtain ⟨job', hjob', -, hstate⟩ := h
  obtain rfl := Option.some.inj (hjob'.symm.trans hjob)
  refine Bool.eq_false_of_not_eq_true fun hready => ?_
  rcases state_of_ready hready with hs | hs <;> simp [hs, JobState.isTerminal] at hstate

namespace ReconciliationLemmas

variable {batch : CommitBatch} {op : Operation} {db db' : Db} {calls : List Call} {call : Call}
  {m : Nat} {entries : List Entry} {jobId token : Id}

theorem withheld_of_change (hchange : JobChange batch op jobId (db.job jobId) (db'.job jobId))
    (h : Withheld db jobId token) : Withheld db' jobId token ∨ op.Reopens jobId token := by
  obtain ⟨job, hjob, hmode, hstate⟩ := h
  rw [hjob] at hchange
  generalize hafter : db'.job jobId = after at hchange
  cases hchange with
  | same => exact .inl ⟨job, hafter, hmode, hstate⟩
  | @step _ u about hstep =>
    have hkeeps {state : JobState} (hu : (u.set job).state = state)
        (hterminal : state.isTerminal = true) : Withheld db' jobId token :=
      ⟨_, hafter, (congrArg JobSpec.effectMode (u.spec job)).trans hmode,
        .inr (.inr (by rw [hu, hterminal]))⟩
    cases hstep with
    | ack => exact .inl (hkeeps rfl rfl)
    | failDead => exact .inl (hkeeps rfl rfl)
    | cancelPending => exact .inl (hkeeps rfl rfl)
    | cancelLeased => exact .inl (hkeeps rfl rfl)
    | resolveTerminal _ terminal => exact .inl (hkeeps rfl terminal)
    | resolveRetry =>
      obtain rfl := Option.some.inj about
      exact .inr (.inr rfl)
    | @failRetry failure _ leased current =>
      -- The failure names the token of the lease that it ends.
      rcases hstate with ⟨-, htoken⟩ | hs | hs
      · exact .inr (.inl ⟨failure, rfl, Option.some.inj about,
          Option.some.inj (current.symm.trans htoken)⟩)
      · rw [leased] at hs
        cases hs
      · rw [leased] at hs
        cases hs
    | extend => exact .inl ⟨_, hafter, hmode, hstate⟩

/-- Maintenance makes the expired job uncertain. -/
theorem withheld_of_repair {job : JobRow} {tid : Id} {now : Int64}
    (hmode : job.spec.effectMode = .requiresReconciliation) :
    ((job.repair tid now).set job).state = .uncertain := by
  simp [JobRow.repair, JobRow.expiredTo, hmode, JobUpdate.nonterminal]

/-- One call keeps the job withheld, or it is a batch that reopens it. -/
theorem withheld_of_call (hcall : calls[m]? = some call)
    (heffect : CallEffect (controlPlane.stateAt calls m).db call db' entries)
    (h : Withheld (controlPlane.stateAt calls m).db jobId token) :
    Withheld db' jobId token ∨ ReopenedAt calls m jobId token := by
  cases heffect with
  | unchanged => exact .inl h
  | commit persists staged =>
    rcases stageBatch_unless (P := fun d => Withheld d jobId token)
      (q := fun op => op.Reopens jobId token) (fun _ _ _ h => h)
      (fun _ _ _ hok => withheld_of_change (applyOperation_change hok jobId))
      (stageCommit_staged staged).2.2 h with h' | hops
    · exact .inl h'
    · exact .inr ⟨_, _, _, ⟨_, _, hcall, persists, staged⟩, hops⟩
  | claim persists staging =>
    obtain ⟨leases, expiryMs, hwrite⟩ := stageClaim_write staging
    have hready := @Withheld.not_ready _ _ _ h
    obtain ⟨job, hjob, hmode, hstate⟩ := h
    have hchange := hwrite.change jobId
    rw [hjob] at hchange
    generalize hafter : Db.job _ jobId = after at hchange
    cases hchange with
    | same => exact .inl ⟨job, hafter, hmode, hstate⟩
    | repaired =>
      exact .inl ⟨_, hafter, (congrArg JobSpec.effectMode (JobUpdate.spec _ job)).trans hmode,
        .inr (.inl (withheld_of_repair hmode))⟩
    | leased _ _ _ ready =>
      -- A claim leases only what it finds ready.
      rw [hready hjob] at ready
      cases ready
  | extend persists staged =>
    obtain ⟨batch, hwrite⟩ := applyExtendLease_direct staged
    rcases withheld_of_change (hwrite.effect.change jobId) h with h | ⟨_, hfail, -⟩ | hresolve
    · exact .inl h
    · cases hfail
    · cases hresolve

/-- What a grant does to its job: it was ready, and is leased under the token. -/
theorem leased_of_granted {receipt : ClaimReceiptRow} (h : Granted calls m receipt) :
    ∃ job nowMs job', (controlPlane.stateAt calls m).db.job receipt.jobId = some job ∧
      job.ready nowMs = true ∧
      (controlPlane.stateAt calls (m + 1)).db.job receipt.jobId = some job' ∧
      job'.state = .leased ∧ job'.leaseToken = some receipt.leaseToken := by
  obtain ⟨request, staged, hpersisted, hgrant⟩ := h
  have hnext := hpersisted.next
  obtain ⟨entropy, step, -, -, staging⟩ := hpersisted
  obtain ⟨leases, expiryMs, hwrite⟩ := stageClaim_write staging
  rw [hwrite.jobs, List.map_map] at hgrant
  obtain ⟨lease, hlease, hgrant⟩ := List.mem_map.mp hgrant
  have hid : lease.job.spec.jobId = receipt.jobId := congrArg Grant.jobId hgrant
  have htoken : lease.leaseToken = receipt.leaseToken := congrArg Grant.leaseToken hgrant
  have hrow := hwrite.granted hlease
  rw [← hnext, hid] at hrow
  exact ⟨lease.job, request.nowMs, _, hid ▸ hwrite.stored lease hlease, hwrite.ready lease hlease,
    hrow, rfl, congrArg some htoken⟩

/-- A granted job is withheld under the token of its grant. -/
theorem withheld_of_granted {receipt : ClaimReceiptRow} (h : Granted calls m receipt)
    {spec : JobSpec}
    (hspec : ((controlPlane.after calls).db.job receipt.jobId).map JobRow.spec = some spec)
    (hmode : spec.effectMode = .requiresReconciliation) :
    Withheld (controlPlane.stateAt calls (m + 1)).db receipt.jobId receipt.leaseToken := by
  obtain ⟨_, _, job, -, -, hjob, hleased, htoken⟩ := leased_of_granted h
  -- The effect mode is known at the end of the run, and a job never changes it.
  have hsame := spec_persists calls h.lt_length (congrArg (Option.map JobRow.spec) hjob)
  rw [Machine.stateAt_length, hspec] at hsame
  refine ⟨job, hjob, ?_, .inl ⟨hleased, htoken⟩⟩
  rw [← Option.some.inj hsame, hmode]

/-- A call that grants leases is a persisted claim. -/
theorem claim_of_grants (hcall : calls[m]? = some call)
    (heffect : CallEffect (controlPlane.stateAt calls m).db call db' entries)
    (h : entries.flatMap Entry.grants ≠ []) :
    ∃ request staged, ClaimPersisted calls m request staged ∧
      staged.jobs.map (ClaimedJob.grant staged.transactionId) = entries.flatMap Entry.grants := by
  cases heffect with
  | unchanged => exact absurd rfl h
  | commit => exact absurd rfl h
  | claim persists staging =>
    exact ⟨_, _, ⟨_, _, hcall, persists, staging⟩, by simp [Entry.grants]⟩
  | extend => exact absurd rfl h

/-- Two receipts of one job, in the order of the table, are grants of two claims
in that order. -/
theorem granted_in_order {pre mid post : List ClaimReceiptRow} {earlier later : ClaimReceiptRow}
    (hrows : (controlPlane.after calls).db.claimReceipts.rows =
      pre ++ earlier :: (mid ++ later :: post)) (hsame : later.jobId = earlier.jobId) :
    ∃ i k, i < k ∧ Granted calls i earlier ∧ Granted calls k later := by
  have hgrants : grants calls = (pre ++ earlier :: mid).map ClaimReceiptRow.grant ++
      later.grant :: post.map ClaimReceiptRow.grant := by
    rw [← receipts_granted, hrows]
    simp
  obtain ⟨k, call, p, q, hcall, hemit, hpre⟩ := Machine.log_split hgrants
  obtain ⟨request, staged, hpersisted, hjobs⟩ := 
    claim_of_grants hcall (next_effect _ call) (by simp [hemit])
  rw [hemit] at hjobs
  have hlater : Granted calls k later := ⟨request, staged, hpersisted, by simp [hjobs]⟩
  have hearlier : earlier.grant ∈ controlPlane.log
      (fun store call => (store.entries call).flatMap Entry.grants) (calls.take k) ++ p := by
    rw [← hpre]
    exact List.mem_map_of_mem (by simp)
  rcases List.mem_append.mp hearlier with hlog | hp
  · obtain ⟨i, hik, call', hcall', hmem⟩ := Machine.mem_log_take.mp hlog
    obtain ⟨request', staged', hpersisted', hjobs'⟩ :=
      claim_of_grants hcall' (next_effect _ call') (List.ne_nil_of_mem hmem)
    exact ⟨i, k, hik, ⟨request', staged', hpersisted', hjobs' ▸ hmem⟩, hlater⟩
  · -- One claim grants a job once.
    have hnodup : ((staged.jobs.map (ClaimedJob.grant staged.transactionId)).map
        Grant.jobId).Nodup := by
      rw [List.map_map]
      exact hpersisted.jobIds_nodup
    rw [hjobs, List.map_append] at hnodup
    refine absurd rfl
      ((List.nodup_append.mp hnodup).2.2 earlier.jobId (List.mem_map_of_mem hp) _ ?_)
    rw [← hsame]
    exact List.mem_cons_self

end ReconciliationLemmas

open ReconciliationLemmas

/-- A job that requires reconciliation is never silently executed again. After a
grant it is not ready at any time, until a persisted batch reports its failure
under the token of the grant or resolves it for a retry; so there is such a
batch between any two of its grants. -/
theorem no_silent_reexecution {calls : List Call} {jobId : Id} {job : JobRow}
    (hjob : (controlPlane.after calls).db.job jobId = some job)
    (hmode : job.spec.effectMode = .requiresReconciliation) :
    (∀ i receipt, Granted calls i receipt → receipt.jobId = jobId →
      ∀ k, i < k → k ≤ calls.length →
        (∃ m, i < m ∧ m < k ∧ ReopenedAt calls m jobId receipt.leaseToken) ∨
        ∀ row, (controlPlane.stateAt calls k).db.job jobId = some row →
          ∀ nowMs, row.ready nowMs = false) ∧
    ∀ pre mid post earlier later, (controlPlane.after calls).db.claimReceipts.rows =
        pre ++ earlier :: (mid ++ later :: post) →
      earlier.jobId = jobId → later.jobId = jobId →
      ∃ i m k, i < m ∧ m < k ∧ Granted calls i earlier ∧ Granted calls k later ∧
        ReopenedAt calls m jobId earlier.leaseToken := by
  have hspec : ((controlPlane.after calls).db.job jobId).map JobRow.spec = some job.spec :=
    congrArg (Option.map JobRow.spec) hjob
  have hwithheld : ∀ {i k receipt}, Granted calls i receipt → receipt.jobId = jobId → i < k →
      k ≤ calls.length → Withheld (controlPlane.stateAt calls k).db jobId receipt.leaseToken ∨
        ∃ m, i < m ∧ m < k ∧ ReopenedAt calls m jobId receipt.leaseToken := by
    rintro i k receipt hgrant rfl hik hk
    rcases Machine.stateAt_unless (M := controlPlane)
      (P := fun s : ControlPlaneStore => Withheld s.db receipt.jobId receipt.leaseToken)
      (q := fun m _ _ => ReopenedAt calls m receipt.jobId receipt.leaseToken)
      (fun m call hcall h => withheld_of_call hcall (next_effect _ call) h) hik hk
      (withheld_of_granted hgrant hspec hmode) with hheld | ⟨m, _, him, hmk, -, -, hreopened⟩
    · exact .inl hheld
    · exact .inr ⟨m, him, hmk, hreopened⟩
  constructor
  · intro i receipt hgrant hid k hik hk
    rcases hwithheld hgrant hid hik hk with hheld | hreopened
    · exact .inr fun row hrow nowMs => hheld.not_ready hrow nowMs
    · exact .inl hreopened
  · intro pre mid post earlier later hrows hearlier hlater
    obtain ⟨i, k, hik, hi, hk⟩ := granted_in_order hrows (hlater.trans hearlier.symm)
    obtain ⟨row, nowMs, _, hrow, hready, -⟩ := leased_of_granted hk
    rcases hwithheld hi hearlier hik (Nat.le_of_lt hk.lt_length) with
      hheld | ⟨m, him, hmk, hreopened⟩
    · rw [hheld.not_ready (hlater ▸ hrow) nowMs] at hready
      cases hready
    · exact ⟨i, m, k, him, hmk, hi, hk, hreopened⟩

/-- A run in which the first worker fails and the job is claimed again. -/
def Sample.retried : List Call :=
  [Sample.enqueue .requiresReconciliation, Sample.claim 20 5 .done,
    Sample.commit 30 6 [.failJob ⟨Sample.jobId, .ofU128 20, "timeout", some 10⟩],
    Sample.claim 40 16 .done]

theorem no_silent_reexecution_sample : ∃ i m k, i < m ∧ m < k ∧ k < 4 ∧
    ReopenedAt Sample.retried m Sample.jobId (.ofU128 20) := by
  obtain ⟨job, hjob⟩ : ∃ job, (controlPlane.after Sample.retried).db.job Sample.jobId = some job :=
    Option.isSome_iff_exists.mp (by decide)
  have hmode : ((controlPlane.after Sample.retried).db.job Sample.jobId).map
      (fun job => job.spec.effectMode) = some .requiresReconciliation := by decide
  rw [hjob] at hmode
  have hrows : (controlPlane.after Sample.retried).db.claimReceipts.rows =
      [] ++ ⟨.ofU128 21, Sample.jobId, .ofU128 20, 1, "worker", 105⟩ ::
        ([] ++ ⟨.ofU128 41, Sample.jobId, .ofU128 40, 2, "worker", 116⟩ :: []) := by decide
  obtain ⟨i, m, k, him, hmk, -, hk, hreopened⟩ :=
    (no_silent_reexecution hjob (Option.some.inj hmode)).2 _ _ _ _ _ hrows rfl rfl
  exact ⟨i, m, k, him, hmk, hk.lt_length, hreopened⟩

end Minisqlite
