import Mathlib.Data.List.Flatten
import Minisqlite.Journal

/-!
# Leases

A lease is the pair of a job and the token that a claim drew for it. It is
current as long as the job row carries the token.

* `held_of_call`, `current_of_call`: what one call can do to a lease.
* `extendLease_refused`, `commit_refused`: a token that is not current opens
  nothing.
* `lease_exclusive`: a lease lasts until its holder, an expired claim or a
  resolution ends it; after that its token is worthless.
-/

namespace Minisqlite

open Tables Runs

/-- The job carries the token. -/
def Current (db : Db) (jobId token : Id) : Prop :=
  ∃ job, db.job jobId = some job ∧ job.leaseToken = some token

/-- The job is leased under the token, at least until `expiryMs`. -/
def Held (db : Db) (jobId token : Id) (expiryMs : Int64) : Prop :=
  ∃ job, db.job jobId = some job ∧ job.state = .leased ∧ job.leaseToken = some token ∧
    ∃ current, job.leaseExpiresAtMs = some current ∧ expiryMs ≤ current

/-- The operation acknowledges, fails or cancels the job under the token. -/
def Operation.Releases (op : Operation) (jobId token : Id) : Prop :=
  op.jobId = some jobId ∧ op.leaseToken = some token ∧
    ∀ extension, op ≠ .extendLease extension

/-- The operation resolves the job. -/
def Operation.Resolves (op : Operation) (jobId : Id) : Prop :=
  ∃ resolution, op = .resolveJob ⟨jobId, resolution⟩

namespace LeaseLemmas

variable {batch : CommitBatch} {op : Operation} {db db' : Db} {jobId token : Id} {expiryMs : Int64}

/-- An operation under a token that changes its job had the current one. -/
theorem current_of_token (hchange : JobChange batch op jobId (db.job jobId) (db'.job jobId))
    (hid : op.jobId = some jobId) (htoken : op.leaseToken = some token) :
    Current db jobId token := by
  generalize hbefore : db.job jobId = before, db'.job jobId = after at hchange
  cases hchange with
  | same other => exact absurd hid other
  | enqueued enqueue about =>
    subst enqueue
    cases htoken
  | @step job u about hstep =>
    refine ⟨job, hbefore, ?_⟩
    cases hstep with
    | ack _ current => rw [current, ← htoken]; rfl
    | failDead _ current => rw [current, ← htoken]; rfl
    | failRetry _ current => rw [current, ← htoken]; rfl
    | cancelLeased _ current => rw [current, ← htoken]; rfl
    | extend _ current => rw [current, ← htoken]; rfl
    | cancelPending => cases htoken
    | resolveRetry => cases htoken
    | resolveTerminal => cases htoken

/-- No operation hands out a token. -/
theorem current_of_change (hchange : JobChange batch op jobId (db.job jobId) (db'.job jobId))
    (h : Current db' jobId token) : Current db jobId token := by
  obtain ⟨job', hjob', htoken⟩ := h
  rw [hjob'] at hchange
  generalize hbefore : db.job jobId = before at hchange
  cases hchange with
  | same => exact ⟨job', hbefore, htoken⟩
  | enqueued => cases htoken
  | @step job u about hstep =>
    refine ⟨job, hbefore, ?_⟩
    cases hstep with
    | extend => exact htoken
    -- Every other step clears the lease columns.
    | _ => cases htoken

/-- An operation keeps the lease, or ends it with the token or by resolution. -/
theorem held_of_change (hchange : JobChange batch op jobId (db.job jobId) (db'.job jobId))
    (h : Held db jobId token expiryMs) :
    Held db' jobId token expiryMs ∨ op.Releases jobId token ∨ op.Resolves jobId := by
  obtain ⟨job, hjob, hleased, htoken, current, hexpiry, hle⟩ := h
  rw [hjob] at hchange
  generalize hafter : db'.job jobId = after at hchange
  cases hchange with
  | same => exact .inl ⟨job, hafter, hleased, htoken, current, hexpiry, hle⟩
  | @step _ u about hstep =>
    cases hstep with
    | ack _ hcurrent => exact .inr (.inl ⟨about, hcurrent.symm.trans htoken, nofun⟩)
    | failDead _ hcurrent => exact .inr (.inl ⟨about, hcurrent.symm.trans htoken, nofun⟩)
    | failRetry _ hcurrent => exact .inr (.inl ⟨about, hcurrent.symm.trans htoken, nofun⟩)
    | cancelLeased _ hcurrent => exact .inr (.inl ⟨about, hcurrent.symm.trans htoken, nofun⟩)
    | cancelPending pending => simp [hleased] at pending
    | resolveRetry =>
      obtain rfl := Option.some.inj about
      exact .inr (.inr ⟨_, rfl⟩)
    | resolveTerminal =>
      obtain rfl := Option.some.inj about
      exact .inr (.inr ⟨_, rfl⟩)
    | @extend extension expiry _ _ hcurrent _ hlater =>
      refine .inl ⟨_, hafter, hleased, htoken, extension.newExpiryMs, rfl, ?_⟩
      rw [hexpiry] at hcurrent
      rw [Option.some.inj hcurrent] at hle
      exact Int64.le_trans hle (Int64.le_of_lt hlater)

/-- The token of an operation that a batch applies was the current one at the
start of the batch. -/
theorem current_of_batch {receipt : CommitReceipt}
    (hstage : stageBatch db batch = .ok (db', receipt)) (hop : op ∈ batch.operations)
    (hid : op.jobId = some jobId) (htoken : op.leaseToken = some token) :
    Current db jobId token := by
  by_contra hdb
  obtain ⟨tx, tx', hopen, hops, -⟩ := stageBatch_ok hstage
  obtain ⟨transactions, _, -, htx, -⟩ := openBatch_ok hopen
  have hstart : ¬ Current tx.db jobId token := by
    rw [htx]
    exact hdb
  -- The operations before `op` do not make the token current.
  obtain ⟨t, u, ht, happly⟩ := foldlM_mem (P := fun t => ¬ Current t.db jobId token)
    (fun s t op hs hok h => hs (current_of_change (applyOperation_change hok jobId) h))
    hops hstart op hop
  exact ht (current_of_token (applyOperation_change happly jobId) hid htoken)

end LeaseLemmas

open LeaseLemmas

/-! ## One call -/

/-- Call `m` of the run may end the lease: a persisted batch gives the token
back or resolves the job, or a claim finds the lease expired. -/
def EndsLease (calls : List Call) (m : Nat) (jobId token : Id) : Prop :=
  (∃ limits batch receipt, CommitPersisted calls m limits batch receipt ∧
    ∃ op ∈ batch.operations, op.Releases jobId token ∨ op.Resolves jobId) ∨
  ∃ request staged job, ClaimPersisted calls m request staged ∧
    (controlPlane.stateAt calls m).db.job jobId = some job ∧ job.leaseToken = some token ∧
    job.expiredIn request.queue request.nowMs = true

namespace LeaseLemmas

variable {calls : List Call} {call : Call} {m : Nat} {db db' : Db} {entries : List Entry}
  {jobId token : Id} {expiryMs : Int64}

/-- One call keeps the lease or ends it. -/
theorem held_of_call (hcall : calls[m]? = some call)
    (heffect : CallEffect (controlPlane.stateAt calls m).db call db' entries)
    (h : Held (controlPlane.stateAt calls m).db jobId token expiryMs) :
    Held db' jobId token expiryMs ∨ EndsLease calls m jobId token := by
  cases heffect with
  | unchanged => exact .inl h
  | commit persists staged =>
    rcases stageBatch_unless (P := fun d => Held d jobId token expiryMs)
      (q := fun op => op.Releases jobId token ∨ op.Resolves jobId) (fun _ _ _ h => h)
      (fun _ _ _ hok => held_of_change (applyOperation_change hok jobId))
      (stageCommit_staged staged).2.2 h with h' | hops
    · exact .inl h'
    · exact .inr (.inl ⟨_, _, _, ⟨_, _, hcall, persists, staged⟩, hops⟩)
  | claim persists staging =>
    obtain ⟨leases, expiryMs', hwrite⟩ := stageClaim_write staging
    obtain ⟨job, hjob, hleased, htoken, current, hexpiry, hle⟩ := h
    have hchange := hwrite.change jobId
    rw [hjob] at hchange
    generalize hafter : Db.job _ jobId = after at hchange
    cases hchange with
    | same => exact .inl ⟨job, hafter, hleased, htoken, current, hexpiry, hle⟩
    | repaired _ expired =>
      exact .inr (.inr ⟨_, _, job, ⟨_, _, hcall, persists, staging⟩, hjob, htoken, expired⟩)
    -- A ready job has no lease.
    | leased _ _ _ ready => rcases state_of_ready ready with hs | hs <;> simp [hs] at hleased
  | extend persists staged =>
    obtain ⟨batch, hwrite⟩ := applyExtendLease_direct staged
    rcases held_of_change (hwrite.effect.change jobId) h with h | ⟨-, -, hother⟩ | ⟨_, hresolve⟩
    · exact .inl h
    · exact absurd rfl (hother _)
    · cases hresolve

/-- Only a claim that draws a token makes it current. -/
theorem current_of_call (heffect : CallEffect db call db' entries)
    (h : Current db' jobId token) : Current db jobId token ∨ token ∈ call.drawn := by
  cases heffect with
  | unchanged => exact .inl h
  | commit persists staged =>
    by_contra hno
    refine stageBatch_induction (P := fun d => ¬ Current d jobId token) (fun _ _ _ h => h) ?_
      (stageCommit_staged staged).2.2 (not_or.mp hno).1 h
    intro tx tx' op happlies hbefore hafter
    exact hbefore (current_of_change (applyOperation_change happlies.apply jobId) hafter)
  | claim persists staging =>
    obtain ⟨leases, expiryMs, hwrite⟩ := stageClaim_write staging
    obtain ⟨job', hjob', htoken⟩ := h
    have hchange := hwrite.change jobId
    rw [hjob'] at hchange
    generalize hbefore : db.job jobId = before at hchange
    cases hchange with
    | same => exact .inl ⟨job', hbefore, htoken⟩
    | repaired =>
      rw [repair_leaseToken] at htoken
      cases htoken
    | leased granted =>
      obtain rfl := Option.some.inj htoken
      exact .inr (hwrite.token_drawn granted)
  | extend persists staged =>
    obtain ⟨batch, hwrite⟩ := applyExtendLease_direct staged
    exact .inl (current_of_change (hwrite.effect.change jobId) h)

/-- A current token was drawn by one of the calls made so far. -/
theorem drawn_of_current (k : Nat) (h : Current (controlPlane.stateAt calls k).db jobId token) :
    token ∈ (calls.take k).flatMap Call.drawn := by
  refine controlPlane.stateAt_induction (P := fun made store =>
    Current store.db jobId token → token ∈ made.flatMap Call.drawn) ?_ ?_ calls k h
  · rintro ⟨job, hjob, -⟩
    cases hjob
  · intro made call ih h
    rw [List.flatMap_append]
    rcases current_of_call (next_effect _ call) h with h | h
    · exact List.mem_append_left _ (ih h)
    · exact List.mem_append_right _ (by simpa using h)

theorem drawn_mono {i k : Nat} (hik : i ≤ k) {x : Id}
    (h : x ∈ (calls.take i).flatMap Call.drawn) : x ∈ (calls.take k).flatMap Call.drawn := by
  obtain ⟨call, hcall, hx⟩ := List.mem_flatMap.mp h
  exact List.mem_flatMap.mpr ⟨call, List.take_subset_take_left calls hik hcall, hx⟩

/-- What was drawn once is not drawn again. -/
theorem not_drawn_again (fresh : FreshIds calls) (hcall : calls[m]? = some call) {x : Id}
    (h : x ∈ (calls.take m).flatMap Call.drawn) : x ∉ call.drawn := by
  intro hx
  have hpre : ((calls.take (m + 1)).flatMap Call.drawn).Nodup :=
    fresh.sublist ((List.take_sublist (m + 1) calls).flatMap Call.drawn)
  rw [Machine.take_succ_of_getElem? hcall, List.flatMap_append] at hpre
  exact (List.nodup_append.mp hpre).2.2 x h x (by simpa using hx) rfl

/-- A token that was drawn and is not current never becomes current. -/
theorem not_current_later (fresh : FreshIds calls) {k l : Nat}
    (hdrawn : token ∈ (calls.take k).flatMap Call.drawn)
    (h : ¬ Current (controlPlane.stateAt calls k).db jobId token) (hkl : k ≤ l)
    (hl : l ≤ calls.length) : ¬ Current (controlPlane.stateAt calls l).db jobId token := by
  refine Machine.stateAt_le_induction (M := controlPlane)
    (P := fun _ s => ¬ Current (ControlPlaneStore.db s) jobId token) h ?_ hkl hl
  intro m call hkm hcall ih hcurrent
  rcases current_of_call (next_effect _ call) hcurrent with hcurrent | hagain
  · exact ih hcurrent
  · -- The token was drawn before call `m`.
    refine not_drawn_again fresh hcall ?_ hagain
    exact drawn_mono hkm hdrawn

end LeaseLemmas

/-! ## Refused holders -/

section Refusals

variable {store : ControlPlaneStore} {jobId token : Id}

/-- A direct extension under a token that is not current is refused. -/
theorem extendLease_refused (h : ¬ Current store.db jobId token) (newExpiryMs nowMs : Int64)
    (step : CommitStep) : ∃ e, store.extendLease jobId token newExpiryMs nowMs step =
      (store.connection, .error e) := by
  cases hstage : applyExtendLease store.db ⟨jobId, token, newExpiryMs⟩ nowMs with
  | error e => exact ⟨e, ControlPlaneStore.extendLease_of_error hstage⟩
  | ok result =>
    obtain ⟨db, receipt⟩ := result
    obtain ⟨batch, hwrite⟩ := applyExtendLease_direct hstage
    exact absurd (current_of_token (hwrite.effect.change jobId) rfl rfl) h

/-- A batch with an operation that carries a token which is not current is refused. -/
theorem commit_refused (h : ¬ Current store.db jobId token) {batch : CommitBatch}
    (free : store.db.transaction batch.transactionId = none) {op : Operation}
    (hop : op ∈ batch.operations) (hid : op.jobId = some jobId)
    (htoken : op.leaseToken = some token) (limits : Limits) (step : CommitStep) :
    ∃ e, store.commit limits batch step = (store.connection, .error e) := by
  match hstage : stageCommit limits store.db batch with
  | .error e => exact ⟨e, ControlPlaneStore.commit_of_error hstage⟩
  | .ok (.resubmitted receipt) =>
    obtain ⟨_, -, hlookup⟩ := bind_ok hstage
    rw [free] at hlookup
    obtain ⟨_, -, hlookup⟩ := bind_ok hlookup
    cases hlookup
  | .ok (.staged db receipt) =>
    exact absurd (current_of_batch (stageCommit_staged hstage).2.2 hop hid htoken) h

end Refusals

/-- Lease exclusivity. A lease lasts, with an expiry that only grows, until a
persisted batch gives its token back or resolves the job, or a claim on its
queue finds it expired. Once its token is not current any more it never is
again: every later extension and every later new batch under it is refused and
writes nothing. -/
theorem lease_exclusive {calls : List Call} (fresh : FreshIds calls) {i k : Nat} (hik : i ≤ k)
    (hk : k ≤ calls.length) {jobId token : Id} {job : JobRow} {expiryMs : Int64}
    (hjob : (controlPlane.stateAt calls i).db.job jobId = some job) (hleased : job.state = .leased)
    (htoken : job.leaseToken = some token) (hexpiry : job.leaseExpiresAtMs = some expiryMs) :
    (Held (controlPlane.stateAt calls k).db jobId token expiryMs ∨
      ∃ m, i ≤ m ∧ m < k ∧ EndsLease calls m jobId token) ∧
    (¬ Current (controlPlane.stateAt calls k).db jobId token → ∀ l, k ≤ l → l ≤ calls.length →
      ¬ Current (controlPlane.stateAt calls l).db jobId token ∧
      (∀ newExpiryMs nowMs step, ∃ e,
        (controlPlane.stateAt calls l).extendLease jobId token newExpiryMs nowMs step =
          ((controlPlane.stateAt calls l).connection, .error e)) ∧
      ∀ limits batch step,
        (controlPlane.stateAt calls l).db.transaction batch.transactionId = none →
        (∃ op ∈ batch.operations, op.jobId = some jobId ∧ op.leaseToken = some token) →
        ∃ e, (controlPlane.stateAt calls l).commit limits batch step =
          ((controlPlane.stateAt calls l).connection, .error e)) := by
  constructor
  · rcases Machine.stateAt_unless (M := controlPlane)
      (P := fun s : ControlPlaneStore => Held s.db jobId token expiryMs)
      (q := fun m _ _ => EndsLease calls m jobId token) (fun m call hcall h =>
        held_of_call hcall (next_effect _ call) h)
      hik hk ⟨job, hjob, hleased, htoken, expiryMs, hexpiry, Int64.le_refl _⟩ with
      hheld | ⟨m, _, him, hmk, -, -, hends⟩
    · exact .inl hheld
    · exact .inr ⟨m, him, hmk, hends⟩
  · intro hlost l hkl hl
    have hdrawn : token ∈ (calls.take k).flatMap Call.drawn :=
      drawn_mono hik (drawn_of_current i ⟨job, hjob, htoken⟩)
    have hgone := not_current_later fresh hdrawn hlost hkl hl
    refine ⟨hgone, extendLease_refused hgone, ?_⟩
    rintro limits batch step free ⟨op, hop, hid, hcarries⟩
    exact commit_refused hgone free hop hid hcarries limits step

/-- A run in which the worker acknowledges its job. -/
def Sample.acknowledged : List Call :=
  [Sample.enqueue .requiresReconciliation, Sample.claim 20 5 .done,
    Sample.commit 30 6 [.ackJob ⟨Sample.jobId, .ofU128 20, none⟩]]

theorem lease_exclusive_sample : ∃ e,
    (controlPlane.stateAt Sample.acknowledged 3).extendLease Sample.jobId (.ofU128 20) 900 7 .done =
      ((controlPlane.stateAt Sample.acknowledged 3).connection, .error e) := by
  obtain ⟨job, hjob⟩ : ∃ job, (controlPlane.stateAt Sample.acknowledged 2).db.job Sample.jobId =
    some job := Option.isSome_iff_exists.mp (by decide)
  have hlease : ((controlPlane.stateAt Sample.acknowledged 2).db.job Sample.jobId).map
      (fun job => (job.state, job.leaseToken, job.leaseExpiresAtMs)) =
        some (.leased, some (.ofU128 20), some 105) := by decide
  rw [hjob] at hlease
  obtain ⟨hleased, htoken, hexpiry⟩ := by simpa using hlease
  have hgone : ((controlPlane.stateAt Sample.acknowledged 3).db.job Sample.jobId).map
      JobRow.leaseToken = some none := by decide
  refine ((lease_exclusive (by decide) (Nat.le_succ 2) (by decide) hjob hleased htoken
    hexpiry).2 ?_ 3 (Nat.le_refl 3) (by decide)).2.1 900 7 .done
  rintro ⟨job', hjob', htoken'⟩
  rw [hjob'] at hgone
  simp [htoken'] at hgone

end Minisqlite
