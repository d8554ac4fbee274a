import Minisqlite.Effects.Total
import Minisqlite.Journal

/-!
# Resolving jobs

`ResolveJob` is meant for uncertain jobs. `apply_resolve` has no guard of its
own for that: it asks the transition table, whose edges out of `Leased` exist
for acks, failures and maintenance. So it also resolves a leased job, without
its lease token.

* `applyResolve_resolvable`, `applyResolve_refused`: what it does, by the state
  of the job.
* `resolve_leased_counterexample`: a leased job is resolved.
* `resolve_conforms_iff`: this is the only way in which it goes wrong, and runs
  without it keep what the contract promises.
-/

namespace Minisqlite

open Tables Runs EffectLemmas TotalLemmas

/-- The state that a resolution moves an uncertain job to. -/
def JobRow.resolvedTo (job : JobRow) : Resolution → JobState
  | .retry => if job.exhausted then .dead else .pending
  | .markSucceeded => .succeeded
  | .markDead => .dead

/-! ## One resolution -/

namespace ResolutionLemmas

variable {db : Db} {job : JobRow} {tid : Id} {now : Int64} {resolution : JobResolution}

theorem setTerminal_resolves {state : JobState} {digest : Option Bytes} {summary : Option String}
    (hjob : db.job job.spec.jobId = some job) (hterminal : state.isTerminal = true) :
    ∃ db', setTerminal db job state now tid digest summary = .ok db' ∧ ∃ job',
      db'.job job.spec.jobId = some job' ∧ job'.state = state := by
  obtain ⟨db', hset⟩ := setTerminal_total hjob hterminal now tid digest summary
  exact ⟨db', hset, _, (setTerminal_ok hterminal hset).1.found hjob, rfl⟩

theorem setNonterminal_resolves (hjob : db.job job.spec.jobId = some job)
    (hstate : job.resolvable) :
    ∃ db', setNonterminal db job.spec.jobId .pending none tid = .ok db' ∧ ∃ job',
      db'.job job.spec.jobId = some job' ∧ job'.state = .pending := by
  obtain ⟨db', hset⟩ : ∃ db', setNonterminal db job.spec.jobId .pending none tid = .ok db' :=
    setNonterminal_total hjob (active_of_resolvable hstate) rfl (by decide) (by simp) tid
  exact ⟨db', hset, _, (setNonterminal_ok rfl hset).1.found hjob, rfl⟩

/-- The transition table refuses every resolution of any other job. -/
theorem not_resolvable_transition (resolution : JobResolution) (hstate : ¬ job.resolvable) :
    job.state.canTransitionTo (job.resolvedTo resolution.resolution) = false := by
  cases hs : job.state with
  | leased => exact absurd (.inl hs) hstate
  | uncertain => exact absurd (.inr hs) hstate
  | _ =>
    cases resolution.resolution <;>
      simp only [JobRow.resolvedTo] <;> first | rfl | (split <;> rfl)

theorem resolvable_transition (resolution : JobResolution) (hstate : job.resolvable) :
    job.state.canTransitionTo (job.resolvedTo resolution.resolution) = true := by
  rcases hstate with hs | hs <;> rw [hs] <;> cases resolution.resolution <;>
    simp only [JobRow.resolvedTo] <;> first | rfl | (split <;> rfl)

end ResolutionLemmas

open ResolutionLemmas

section OneResolution

variable {db : Db} {job : JobRow} {tid : Id} {now : Int64} {resolution : JobResolution}

/-- An uncertain job, but also a leased one, is resolved. -/
theorem applyResolve_resolvable (hjob : db.job resolution.jobId = some job)
    (hstate : job.resolvable) : ∃ db', applyResolve db tid now resolution = .ok db' ∧ ∃ job',
      db'.job resolution.jobId = some job' ∧
      job'.state = job.resolvedTo resolution.resolution := by
  have htransition := resolvable_transition resolution hstate
  have hid := job_id hjob
  rw [← hid] at hjob ⊢
  unfold applyResolve requireJob
  rw [← hid, hjob]
  simp only [bind, Except.bind]
  cases hr : resolution.resolution with
  | retry =>
    rw [hr] at htransition
    simp only [JobRow.resolvedTo] at htransition ⊢
    by_cases hex : job.exhausted = true
    · rw [if_pos hex] at htransition
      simp only [hex, if_true, ensureTransition, htransition]
      exact setTerminal_resolves hjob rfl
    · rw [if_neg hex] at htransition
      simp only [hex, ensureTransition, htransition]
      exact setNonterminal_resolves hjob hstate
  | markSucceeded =>
    rw [hr] at htransition
    simp only [JobRow.resolvedTo] at htransition ⊢
    simp only [ensureTransition, htransition]
    exact setTerminal_resolves hjob rfl
  | markDead =>
    rw [hr] at htransition
    simp only [JobRow.resolvedTo] at htransition ⊢
    simp only [ensureTransition, htransition]
    exact setTerminal_resolves hjob rfl

/-- Any other job is refused. -/
theorem applyResolve_refused (hjob : db.job resolution.jobId = some job)
    (hstate : ¬ job.resolvable) : applyResolve db tid now resolution =
      .error (.conflict (.jobTransition resolution.jobId job.state
        (job.resolvedTo resolution.resolution))) := by
  have htransition := not_resolvable_transition resolution hstate
  have hid := job_id hjob
  unfold applyResolve requireJob
  rw [hjob]
  simp only [bind, Except.bind]
  cases hr : resolution.resolution with
  | retry =>
    rw [hr] at htransition
    simp only [JobRow.resolvedTo] at htransition ⊢
    by_cases hex : job.exhausted = true
    · rw [if_pos hex] at htransition
      simp [hex, ensureTransition, htransition, hid]
    · rw [if_neg hex] at htransition
      simp [hex, ensureTransition, htransition, hid]
  | _ =>
    rw [hr] at htransition
    simp only [JobRow.resolvedTo] at htransition ⊢
    simp [ensureTransition, htransition, hid]

end OneResolution

/-! ## The contract of a resolution -/

/-- A valid batch that is not on record gets as far as `ResolveJob`, in the
state `tx`, and the operation finds `job`. -/
def ReachesResolve (limits : Limits) (db : Db) (batch : CommitBatch) (resolution : JobResolution)
    (tx : OpenBatch) (job : JobRow) : Prop :=
  validateBatch limits batch = .ok () ∧ db.transaction batch.transactionId = none ∧
    ∃ tx₀ receipt pre post, openBatch db batch = .ok (tx₀, receipt) ∧
      batch.operations = pre ++ .resolveJob resolution :: post ∧
      pre.foldlM (applyOperation batch) tx₀ = .ok tx ∧ tx.db.job resolution.jobId = some job

/-- The contract: a job that is not uncertain makes the operation, and with it
the commit, fail with a transition conflict and write nothing; an uncertain one
is moved to where the resolution says. -/
def ResolutionConforms (store : ControlPlaneStore) (limits : Limits) (batch : CommitBatch)
    (step : CommitStep) (resolution : JobResolution) (tx : OpenBatch) (job : JobRow) : Prop :=
  (job.state ≠ .uncertain → ∃ e : CommitError,
    e = .conflict (.jobTransition resolution.jobId job.state
      (job.resolvedTo resolution.resolution)) ∧
    applyOperation batch tx (.resolveJob resolution) = .error e ∧
    store.commit limits batch step = (store.connection, .error e)) ∧
  (job.state = .uncertain → ∃ tx', applyOperation batch tx (.resolveJob resolution) = .ok tx' ∧
    ∃ job', tx'.db.job resolution.jobId = some job' ∧
      job'.state = job.resolvedTo resolution.resolution)

/-- No persisted batch of the run resolves a job that is leased at that moment. -/
def NoLeasedResolve (calls : List Call) : Prop :=
  ∀ k limits batch receipt resolution tx tx' job, CommitPersisted calls k limits batch receipt →
    Applies (controlPlane.stateAt calls k).db batch (.resolveJob resolution) tx tx' →
    tx.db.job resolution.jobId = some job → job.state ≠ .leased

namespace ResolutionLemmas

/-- The operation meets the contract unless the job is leased. -/
theorem conforms_iff {store : ControlPlaneStore} {limits : Limits} {batch : CommitBatch}
    {step : CommitStep} {resolution : JobResolution} {tx : OpenBatch} {job : JobRow}
    (h : ReachesResolve limits store.db batch resolution tx job) :
    ResolutionConforms store limits batch step resolution tx job ↔ job.state ≠ .leased := by
  obtain ⟨valid, free, tx₀, receipt, pre, post, hopen, hops, hpre, hjob⟩ := h
  have hresolvable (hstate : job.resolvable) : ∃ tx',
      applyOperation batch tx (.resolveJob resolution) = .ok tx' ∧ ∃ job',
        tx'.db.job resolution.jobId = some job' ∧
        job'.state = job.resolvedTo resolution.resolution := by
    obtain ⟨db', happly, hmoved⟩ : ∃ db', applyResolve tx.db batch.transactionId
        batch.committedAtMs resolution = .ok db' ∧ _ := applyResolve_resolvable hjob hstate
    refine ⟨{ tx with db := db' }, ?_, hmoved⟩
    show tx.run (applyResolve _ _ _ _) = _
    rw [happly]
    rfl
  constructor
  · rintro ⟨hrefused, -⟩ hleased
    obtain ⟨e, -, herror, -⟩ := hrefused (by simp [hleased])
    obtain ⟨tx', hok, -⟩ := hresolvable (.inl hleased)
    rw [hok] at herror
    cases herror
  · intro hleased
    refine ⟨fun huncertain => ?_, fun huncertain => hresolvable (.inr huncertain)⟩
    have hop : applyOperation batch tx (.resolveJob resolution) =
        .error (.conflict (.jobTransition resolution.jobId job.state
          (job.resolvedTo resolution.resolution))) := by
      show tx.run (applyResolve _ _ _ _) = _
      rw [applyResolve_refused hjob (not_or.mpr ⟨hleased, huncertain⟩)]
      rfl
    exact ⟨_, rfl, hop, ControlPlaneStore.commit_of_error
      (stageCommit_error valid free (stageBatch_opError hopen hops hpre hop))⟩

/-- The states that a leased job can have later in the same batch. -/
def wasLeased (state : JobState) : Prop :=
  state = .leased ∨ state = .retryWait ∨ state.isTerminal = true

/-- An operation that is not a resolution of a leased job: what it makes of one. -/
theorem step_of_wasLeased {batch : CommitBatch} {job : JobRow} {op : Operation} {u : JobUpdate}
    (hstep : JobStep batch job op u) (hjob : wasLeased job.state)
    (hresolve : job.state = .leased → ∀ resolution, op ≠ .resolveJob resolution) :
    wasLeased (u.set job).state ∧ (job.state = .leased → (u.set job).state.isTerminal = true →
      op.leaseToken = job.leaseToken) := by
  cases hstep with
  -- Acks, failures and cancellations of a leased job carry its token.
  | ack leased token => exact ⟨.inr (.inr rfl), fun _ _ => token.symm⟩
  | failDead leased token _ => exact ⟨.inr (.inr rfl), fun _ _ => token.symm⟩
  | failRetry leased token _ => exact ⟨.inr (.inl rfl), fun _ hterminal => by cases hterminal⟩
  | cancelPending pending => exact ⟨.inr (.inr rfl), fun hleased => by simp [pending] at hleased⟩
  | cancelLeased leased token => exact ⟨.inr (.inr rfl), fun _ _ => token.symm⟩
  | resolveRetry resolvable left =>
    rcases resolvable with hs | hs
    · exact absurd rfl (hresolve hs _)
    · simp [wasLeased, hs, JobState.isTerminal] at hjob
  | resolveTerminal resolvable terminal =>
    rcases resolvable with hs | hs
    · exact absurd rfl (hresolve hs _)
    · simp [wasLeased, hs, JobState.isTerminal] at hjob
  | extend leased token => exact ⟨.inl leased, fun _ _ => token.symm⟩

variable {calls : List Call} {k : Nat} {limits : Limits} {batch : CommitBatch}
  {receipt : CommitReceipt} {op : Operation} {tx tx' : OpenBatch} {jobId : Id} {job job' : JobRow}

theorem operation_of_wasLeased (hclean : NoLeasedResolve calls)
    (hpersisted : CommitPersisted calls k limits batch receipt)
    (happlies : Applies (controlPlane.stateAt calls k).db batch op tx tx')
    (hjob : tx.db.job jobId = some job) (hstate : wasLeased job.state)
    (hjob' : tx'.db.job jobId = some job') :
    wasLeased job'.state ∧ (job.state = .leased → job'.state.isTerminal = true →
      op.jobId = some jobId ∧ op.leaseToken = job.leaseToken) := by
  have hchange := applyOperation_change happlies.apply jobId
  rw [hjob, hjob'] at hchange
  cases hchange with
  | same =>
    refine ⟨hstate, fun hleased hterminal => ?_⟩
    rw [hleased] at hterminal
    cases hterminal
  | step about hstep =>
    obtain ⟨hstate', htoken⟩ := step_of_wasLeased hstep hstate fun hleased resolution hop => by
      subst hop
      refine hclean k limits batch receipt resolution tx tx' job hpersisted happlies ?_ hleased
      rw [show resolution.jobId = jobId from Option.some.inj about]
      exact hjob
    exact ⟨hstate', fun hleased hterminal => ⟨about, htoken hleased hterminal⟩⟩

/-- A whole batch does not move a leased job to `Pending`. -/
theorem batch_of_leased (hclean : NoLeasedResolve calls)
    (hpersisted : CommitPersisted calls k limits batch receipt) {db' : Db}
    (hstage : stageBatch (controlPlane.stateAt calls k).db batch = .ok (db', receipt))
    (hjob : (controlPlane.stateAt calls k).db.job jobId = some job)
    (hleased : job.state = .leased) :
    ∃ job', db'.job jobId = some job' ∧ wasLeased job'.state := by
  refine stageBatch_induction
    (P := fun d => ∃ job', d.job jobId = some job' ∧ wasLeased job'.state)
    (fun _ _ _ h => h) ?_ hstage ⟨job, hjob, .inl hleased⟩
  rintro tx tx' op happlies ⟨row, hrow, hstate⟩
  have hchange := applyOperation_change happlies.apply jobId
  rw [hrow] at hchange
  generalize hrow' : tx'.db.job jobId = after at hchange
  cases hchange with
  | same => exact ⟨row, rfl, hstate⟩
  | step about hstep =>
    exact ⟨_, rfl, (operation_of_wasLeased hclean hpersisted happlies hrow hstate hrow').1⟩

/-- Maintenance returns only idempotent jobs to `Pending`. -/
theorem idempotent_of_repair {tid : Id} {now : Int64}
    (h : ((job.repair tid now).set job).state = .pending) :
    job.spec.effectMode = .explicitlyIdempotent := by
  cases hmode : job.spec.effectMode with
  | explicitlyIdempotent => rfl
  | requiresReconciliation =>
    simp [JobRow.repair, JobRow.expiredTo, hmode, JobUpdate.nonterminal] at h

/-- Only the maintenance of an idempotent job moves a leased job to `Pending`. -/
theorem pending_of_call (hclean : NoLeasedResolve calls) {call : Call}
    (hcall : calls[k]? = some call) {db' : Db} {entries : List Entry}
    (heffect : CallEffect (controlPlane.stateAt calls k).db call db' entries)
    (hjob : (controlPlane.stateAt calls k).db.job jobId = some job) (hleased : job.state = .leased)
    (hjob' : db'.job jobId = some job') (hpending : job'.state = .pending) :
    ∃ request staged, ClaimPersisted calls k request staged ∧
      job.expiredIn request.queue request.nowMs = true ∧
      job.spec.effectMode = .explicitlyIdempotent := by
  cases heffect with
  | unchanged =>
    rw [hjob] at hjob'
    rw [← Option.some.inj hjob', hleased] at hpending
    cases hpending
  | commit persists staged =>
    obtain ⟨row, hrow, hstate⟩ := batch_of_leased hclean ⟨_, _, hcall, persists, staged⟩
      (stageCommit_staged staged).2.2 hjob hleased
    rw [hjob'] at hrow
    rw [← Option.some.inj hrow, hpending] at hstate
    simp [wasLeased, JobState.isTerminal] at hstate
  | @claim request entropy step staged persists staging =>
    refine ⟨request, staged, ⟨_, _, hcall, persists, staging⟩, ?_⟩
    obtain ⟨leases, expiryMs, hwrite⟩ := stageClaim_write staging
    have hchange := hwrite.change jobId
    rw [hjob, hjob'] at hchange
    cases hchange with
    | same =>
      rw [hleased] at hpending
      cases hpending
    | repaired _ expired => exact ⟨expired, idempotent_of_repair hpending⟩
    | leased => cases hpending
  | extend persists staged =>
    obtain ⟨batch, hwrite⟩ := applyExtendLease_direct staged
    have hchange := hwrite.effect.change jobId
    rw [hjob, hjob'] at hchange
    cases hchange with
    | same =>
      rw [hleased] at hpending
      cases hpending
    | step _ hstep =>
      cases hstep
      rw [show job.state = .pending from hpending] at hleased
      cases hleased

end ResolutionLemmas

/-- A leased job is resolved without its token: the commit that should fail with
a transition conflict succeeds, and the running worker's job is over. -/
theorem resolve_leased_counterexample :
    ((controlPlane.after [Sample.enqueue .requiresReconciliation, Sample.claim 20 5 .done]).db.job
      Sample.jobId).map JobRow.state = some .leased ∧
    ((controlPlane.after [Sample.enqueue .requiresReconciliation, Sample.claim 20 5 .done]).commit
      .default (Sample.batch 30 6 [.resolveJob ⟨Sample.jobId, .markSucceeded⟩]) .done).2 =
        .ok ⟨.ofU128 30, 3, 6⟩ ∧
    (((controlPlane.after [Sample.enqueue .requiresReconciliation, Sample.claim 20 5 .done]).commit
      .default (Sample.batch 30 6 [.resolveJob ⟨Sample.jobId, .markSucceeded⟩]) .done).1.db.job
        Sample.jobId).map JobRow.state = some .succeeded := by
  decide

/-- A resolution meets its contract exactly if the job is not leased when it is
applied. In a run in which no persisted batch resolves a leased job, only the
maintenance of an expired lease of an idempotent job moves a leased job to
`Pending`, and no operation ends a leased job without its current token. -/
theorem resolve_conforms_iff (calls : List Call) :
    (∀ limits batch step resolution tx job,
      ReachesResolve limits (controlPlane.after calls).db batch resolution tx job →
      (ResolutionConforms (controlPlane.after calls) limits batch step resolution tx job ↔
        job.state ≠ .leased)) ∧
    (NoLeasedResolve calls →
      (∀ k jobId job job', k < calls.length →
        (controlPlane.stateAt calls k).db.job jobId = some job → job.state = .leased →
        (controlPlane.stateAt calls (k + 1)).db.job jobId = some job' → job'.state = .pending →
        ∃ request staged, ClaimPersisted calls k request staged ∧
          job.expiredIn request.queue request.nowMs = true ∧
          job.spec.effectMode = .explicitlyIdempotent) ∧
      ∀ k limits batch receipt op tx tx' jobId job job',
        CommitPersisted calls k limits batch receipt →
        Applies (controlPlane.stateAt calls k).db batch op tx tx' →
        tx.db.job jobId = some job → job.state = .leased → tx'.db.job jobId = some job' →
        job'.state ≠ .pending ∧ (job'.state.isTerminal = true →
          op.jobId = some jobId ∧ op.leaseToken = job.leaseToken)) := by
  refine ⟨fun _ _ _ _ _ _ h => conforms_iff h, fun hclean => ⟨?_, ?_⟩⟩
  · intro k jobId job job' hk hjob hleased hjob' hpending
    have hcall : calls[k]? = some calls[k] := List.getElem?_eq_getElem hk
    rw [Machine.stateAt_succ hcall] at hjob'
    exact pending_of_call hclean hcall (next_effect _ _) hjob hleased hjob' hpending
  · intro k limits batch receipt op tx tx' jobId job job' hpersisted happlies hjob hleased hjob'
    obtain ⟨hstate, htoken⟩ :=
      operation_of_wasLeased hclean hpersisted happlies hjob (.inl hleased) hjob'
    refine ⟨fun hpending => ?_, htoken hleased⟩
    simp [wasLeased, hpending, JobState.isTerminal] at hstate

end Minisqlite
