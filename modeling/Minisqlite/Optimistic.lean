import Minisqlite.EventLog

/-!
# Optimistic concurrency

A met expectation counts: an expected stream version is the number of events
that the stream has in the journal so far, an expected projection version the
number of patches. Both numbers only grow, so no two transactions can win with
the same expectation, however the clients' commits are interleaved.

* `expectations_count`, `patches_count`: the two counts, over the journal.
* `PatchInvariant`, `patches_after`: what every patch preserves, a run preserves.
* `commit_streamConflict`, `commit_projectionConflict`: the loser's answer.
* `no_lost_update`: the result.
-/

namespace Minisqlite

open Tables Runs ControlPlaneStore

/-! ## Streams -/

/-- The number of events that a stream has in the journal. -/
def streamCount (entries : List Entry) (streamId : String) : Nat :=
  (entries.flatMap Entry.events).countP fun e => decide (e.2.streamId = streamId)

theorem streamCount_append (entries more : List Entry) (streamId : String) :
    streamCount (entries ++ more) streamId =
      streamCount entries streamId + streamCount more streamId := by
  simp [streamCount, List.countP_append]

/-- The version of a stream is the number of its events. -/
theorem streamVersion_eq_count (calls : List Call) (streamId : String) :
    ((controlPlane.after calls).db.streamVersion streamId).toNat =
      streamCount (journal calls) streamId := by
  obtain ⟨hlog, hjournal⟩ := eventLog_after calls
  rw [hlog.current, streamCount, ← hjournal, List.countP_map, streamRows,
    ← List.countP_eq_length_filter]
  rfl

/-- Every expectation of the journal met the number of events before it. -/
theorem expectations_count (calls : List Call) {i : Nat} {b : CommitBatch}
    (hi : (journal calls)[i]? = some (.batch b)) {e : ExpectedStreamVersion}
    (he : e ∈ b.expectedStreamVersions) :
    e.version.toNat = streamCount ((journal calls).take i) e.streamId := by
  induction calls using List.reverseRecOn generalizing i b with
  | nil => simp [journal] at hi
  | append_singleton calls call ih =>
    have hjournal : journal (calls ++ [call]) =
        journal calls ++ (controlPlane.after calls).entries call := by simp [journal]
    rw [hjournal] at hi ⊢
    -- The batch is in the journal without the last call, or is that call's entry.
    by_cases hlt : i < (journal calls).length
    · rw [List.getElem?_append_left hlt] at hi
      rw [List.take_append_of_le_length (Nat.le_of_lt hlt)]
      exact ih hi he
    · rw [List.getElem?_append_right (Nat.not_lt.mp hlt)] at hi
      obtain ⟨limits, step, db', receipt, rfl, persists, staged⟩ :=
        mem_entries_batch.mp (List.mem_of_getElem? hi)
      have hlength : i = (journal calls).length := by
        have := (List.getElem?_eq_some_iff.mp hi).1
        simp [entries, persists, staged] at this
        omega
      rw [hlength, List.take_left, ← streamVersion_eq_count]
      obtain ⟨tx, _, hopen, -⟩ := stageBatch_ok (stageCommit_staged staged).2.2
      rw [(openBatch_version hopen).2.2 e he]

/-- The batch appends to the stream. -/
def CommitBatch.appendsTo (batch : CommitBatch) (streamId : String) : Prop :=
  ∃ event, Operation.appendEvent event ∈ batch.operations ∧ event.streamId = streamId

theorem streamCount_pos {b : CommitBatch} {streamId : String} (h : b.appendsTo streamId) :
    0 < streamCount [.batch b] streamId := by
  obtain ⟨event, hevent, hs⟩ := h
  refine List.countP_pos_iff.mpr ⟨(b.transactionId, event), ?_, by simpa using hs⟩
  simpa [Entry.events, CommitBatch.events] using ⟨_, hevent, rfl⟩

/-- A batch that appends moves the count past its own expectation. -/
theorem expectation_wins_once (calls : List Call) {i j : Nat} {b b' : CommitBatch}
    {e : ExpectedStreamVersion} (hi : (journal calls)[i]? = some (.batch b))
    (hj : (journal calls)[j]? = some (.batch b')) (he : e ∈ b.expectedStreamVersions)
    (he' : e ∈ b'.expectedStreamVersions) (happends : b.appendsTo e.streamId) : ¬ i < j := by
  intro hij
  have hbefore := expectations_count calls hi he
  have hafter := expectations_count calls hj he'
  have hpos := streamCount_pos happends
  obtain ⟨rest, hrest⟩ : ∃ rest, (journal calls).take j =
      (journal calls).take i ++ [.batch b] ++ rest := by
    rw [← Machine.take_succ_of_getElem? hi]
    exact (List.take_prefix_take_left hij).imp fun _ h => h.symm
  rw [hrest, streamCount_append, streamCount_append] at hafter
  omega

/-! ## Projections -/

def Operation.patch : Operation → Option ProjectionPatch
  | .projectionPatch patch => some patch
  | _ => none

/-- The patches of an entry, in order; a claim has none. -/
def Entry.patches : Entry → List ProjectionPatch
  | .batch b => b.operations.filterMap Operation.patch
  | .claim _ _ _ => []

/-- The patches of one projection. -/
def patchesOf (patches : List ProjectionPatch) (projection : String) : List ProjectionPatch :=
  patches.filter fun patch => decide (patch.projection = projection)

/-- Each patch expects the number of those before it, and the version that a
projection is held to have is the number of its patches. -/
structure PatchLog (patches : List ProjectionPatch) (db : Db) : Prop where
  expected : ∀ projection, (patchesOf patches projection).map (·.expectedVersion.toNat) =
    List.range (patchesOf patches projection).length
  current : ∀ projection,
    (db.projectionVersion projection).toNat = (patchesOf patches projection).length

theorem setProjectionVersion_version (db : Db) (projection projection' : String)
    (version : UInt64) :
    (setProjectionVersion db projection version.toInt64).projectionVersion projection' =
      if projection = projection' then version else db.projectionVersion projection' := by
  simp only [Db.projectionVersion, setProjectionVersion]
  rw [Table.lookup_upsert]
  split
  · cases db.projectionMeta.lookup ProjectionMetaRow.projection projection' <;> simp
  · rfl

section Batch

variable {batch : CommitBatch} {tx tx' : OpenBatch} {op : Operation} {db db' : Db}
  {patches : List ProjectionPatch} {receipt : CommitReceipt}

/-- A patch moves its projection one version up and no other. -/
theorem applyProjectionPatch_version {patch : ProjectionPatch}
    (h : applyProjectionPatch db patch = .ok db') :
    db.projectionVersion patch.projection = patch.expectedVersion ∧
      (db'.projectionVersion patch.projection).toNat = patch.expectedVersion.toNat + 1 ∧
      ∀ projection, patch.projection ≠ projection →
        db'.projectionVersion projection = db.projectionVersion projection := by
  obtain ⟨hvalid, hexpected, entries, rfl⟩ := applyProjectionPatch_ok h
  have hversion : ∀ projection, Db.projectionVersion
      { setProjectionVersion db patch.projection patch.newVersion.toInt64 with
        projectionEntries := entries } projection =
      if patch.projection = projection then patch.newVersion else db.projectionVersion projection :=
    fun projection => setProjectionVersion_version db patch.projection projection patch.newVersion
  refine ⟨hexpected, ?_, fun projection hne => by rw [hversion, if_neg hne]⟩
  rw [hversion, if_pos rfl]
  exact ProjectionPatch.next_version.mp (ProjectionPatch.validate_version hvalid)

/-- A valid patch of another version is refused with the one that the projection has. -/
theorem applyProjectionPatch_stale {patch : ProjectionPatch} (hvalid : patch.validate = .ok ())
    (stale : db.projectionVersion patch.projection ≠ patch.expectedVersion) :
    applyProjectionPatch db patch = .error (.conflict (.projectionVersion patch.projection
      patch.expectedVersion (db.projectionVersion patch.projection))) := by
  unfold applyProjectionPatch
  rw [hvalid]
  exact if_pos stale

theorem PatchLog.append {patch : ProjectionPatch} (hlog : PatchLog patches db)
    (h : applyProjectionPatch db patch = .ok db') : PatchLog (patches ++ [patch]) db' := by
  obtain ⟨hexpected, hnew, hother⟩ := applyProjectionPatch_version h
  constructor <;> intro projection <;> by_cases hp : patch.projection = projection
  · subst hp
    have hlength : patch.expectedVersion.toNat = (patchesOf patches patch.projection).length := by
      rw [← hlog.current, hexpected]
    have := hlog.expected patch.projection
    simp_all [patchesOf, List.range_succ]
  · have := hlog.expected projection
    simpa [patchesOf, hp] using this
  · subst hp
    rw [hnew, ← hexpected, hlog.current]
    simp [patchesOf]
  · rw [hother projection hp, hlog.current]
    simp [patchesOf, hp]

theorem PatchLog.of_meta {db' : Db} (hlog : PatchLog patches db)
    (h : db'.projectionMeta = db.projectionMeta) : PatchLog patches db' :=
  ⟨hlog.expected, fun projection => by
    rw [← hlog.current projection, Db.projectionVersion, Db.projectionVersion, h]⟩

end Batch

/-- A property of the projections and of the patches made so far that every patch
preserves. -/
structure PatchInvariant (P : List ProjectionPatch → Db → Prop) : Prop where
  frame : ∀ patches d d', d'.projectionMeta = d.projectionMeta →
    d'.projectionEntries = d.projectionEntries → P patches d → P patches d'
  patched : ∀ patches d d' patch, applyProjectionPatch d patch = .ok d' → P patches d →
    P (patches ++ [patch]) d'

theorem patchLog_invariant : PatchInvariant PatchLog where
  frame _ _ _ hmeta _ h := h.of_meta hmeta
  patched _ _ _ _ happly h := h.append happly

section Patches

variable {P : List ProjectionPatch → Db → Prop} {batch : CommitBatch} {tx tx' : OpenBatch}
  {op : Operation} {db db' : Db} {patches : List ProjectionPatch} {receipt : CommitReceipt}

theorem applyOperation_patches (h : applyOperation batch tx op = .ok tx') (inv : PatchInvariant P)
    (hdb : P patches tx.db) : P (patches ++ op.patch.toList) tx'.db := by
  cases hid : op.jobId with
  | some jobId =>
    have hop : op.patch = none := by cases op <;> first | rfl | cases hid
    have hwrite := (applyOperation_job hid h).2
    rw [hop, Option.toList_none, List.append_nil]
    exact inv.frame _ _ _ hwrite.projectionMeta hwrite.projectionEntries hdb
  | none =>
    cases op with
    | appendEvent event =>
      obtain ⟨_, _, _, -, -, -, rfl⟩ := appendEvent_ok h
      show P (patches ++ []) _
      rw [List.append_nil]
      exact inv.frame _ tx.db _ rfl rfl hdb
    | projectionPatch patch => exact inv.patched _ _ _ _ (EffectLemmas.run_ok h).1 hdb
    | _ => cases hid

theorem applyOperations_patches {ops : List Operation}
    (h : ops.foldlM (applyOperation batch) tx = .ok tx') (inv : PatchInvariant P)
    (hdb : P patches tx.db) : P (patches ++ ops.filterMap Operation.patch) tx'.db := by
  induction ops generalizing tx patches with
  | nil => cases h; simpa using hdb
  | cons op ops ih =>
    obtain ⟨t, ht, hrest⟩ := foldlM_cons_ok h
    have := ih hrest (applyOperation_patches ht inv hdb)
    cases hop : op.patch <;> simpa [hop] using this

theorem stageBatch_patches (h : stageBatch db batch = .ok (db', receipt)) (inv : PatchInvariant P)
    (hdb : P patches db) : P (patches ++ batch.operations.filterMap Operation.patch) db' := by
  obtain ⟨tx, tx', transactions, streams, -, htx, hops, rfl⟩ := stageBatch_phases h
  refine inv.frame _ tx'.db _ rfl rfl (applyOperations_patches hops inv ?_)
  rw [htx]
  exact inv.frame _ db _ rfl rfl hdb

/-- A call extends the patches by those of its entry. -/
theorem CallEffect.patched {call : Call} {entries : List Entry}
    (h : CallEffect db call db' entries) (inv : PatchInvariant P) (hdb : P patches db) :
    P (patches ++ entries.flatMap Entry.patches) db' := by
  cases h with
  | unchanged => simpa using hdb
  | commit persists staged =>
    simpa [Entry.patches] using stageBatch_patches (stageCommit_staged staged).2.2 inv hdb
  | claim persists staging =>
    obtain ⟨_, _, hwrite⟩ := stageClaim_write staging
    simpa [Entry.patches] using
      inv.frame _ _ _ hwrite.projectionMeta hwrite.projectionEntries hdb
  | extend persists staged =>
    obtain ⟨_, _, _, _, -, -, -, -, -, -, rfl, -⟩ := EffectLemmas.applyExtendLease_ok staged
    rw [List.flatMap_nil, List.append_nil]
    exact inv.frame _ db _ rfl rfl hdb

/-- A patch invariant holds of the patches of the journal. -/
theorem patches_after (inv : PatchInvariant P) (hempty : P [] Db.empty) (calls : List Call) :
    P ((journal calls).flatMap Entry.patches) (controlPlane.after calls).db := by
  refine controlPlane.log_induction (P := fun entries store =>
    P (entries.flatMap Entry.patches) store.db) hempty ?_ calls
  intro calls call ih
  rw [List.flatMap_append]
  exact (next_effect (controlPlane.after calls) call).patched inv ih

end Patches

/-- The patches of the journal count the versions of their projections. -/
theorem patches_count (calls : List Call) :
    PatchLog ((journal calls).flatMap Entry.patches) (controlPlane.after calls).db :=
  patches_after patchLog_invariant ⟨fun _ => rfl, fun _ => rfl⟩ calls

/-! ## The loser's answer -/

section Conflicts

variable {store : ControlPlaneStore} {limits : Limits} {batch : CommitBatch} {step : CommitStep}

theorem checkExpected_met {db : Db} {expected : List ExpectedStreamVersion}
    (h : ∀ e ∈ expected, db.streamVersion e.streamId = e.version)
    (streamVersions : StreamVersions) :
    ∃ streamVersions', expected.foldlM (checkExpected db) streamVersions = .ok streamVersions' := by
  induction expected generalizing streamVersions with
  | nil => exact ⟨_, rfl⟩
  | cons e expected ih =>
    obtain ⟨streamVersions', hrest⟩ := ih (fun e he => h e (List.mem_cons_of_mem _ he))
      (streamVersions.insert e.streamId (db.streamVersion e.streamId))
    refine ⟨streamVersions', ?_⟩
    rw [List.foldlM_cons, checkExpected, if_neg (not_not.mpr (h e List.mem_cons_self))]
    exact hrest

/-- The first stale stream expectation is reported with the durable version. -/
theorem commit_streamConflict (valid : validateBatch limits batch = .ok ())
    (free : store.db.transaction batch.transactionId = none)
    {pre post : List ExpectedStreamVersion} {expected : ExpectedStreamVersion}
    (hexpected : batch.expectedStreamVersions = pre ++ expected :: post)
    (met : ∀ e ∈ pre, store.db.streamVersion e.streamId = e.version)
    (stale : store.db.streamVersion expected.streamId ≠ expected.version) :
    store.commit limits batch step = (store.connection, .error (.conflict (.streamVersion
      expected.streamId expected.version (store.db.streamVersion expected.streamId)))) := by
  refine commit_of_error (stageCommit_error valid free ?_)
  obtain ⟨streamVersions, hpre⟩ := checkExpected_met met ∅
  unfold stageBatch openBatch
  rw [hexpected, foldlM_error hpre (if_pos stale)]
  rfl

/-- The first stale projection expectation is reported with the version that
the earlier operations of the batch have left. -/
theorem commit_projectionConflict (valid : validateBatch limits batch = .ok ())
    (free : store.db.transaction batch.transactionId = none)
    {tx tx' : OpenBatch} {receipt : CommitReceipt}
    (hopen : openBatch store.db batch = .ok (tx, receipt))
    {pre post : List Operation} {patch : ProjectionPatch}
    (hops : batch.operations = pre ++ .projectionPatch patch :: post)
    (hpre : pre.foldlM (applyOperation batch) tx = .ok tx')
    (stale : tx'.db.projectionVersion patch.projection ≠ patch.expectedVersion) :
    store.commit limits batch step = (store.connection, .error (.conflict (.projectionVersion
      patch.projection patch.expectedVersion (tx'.db.projectionVersion patch.projection)))) := by
  refine commit_of_error (stageCommit_error valid free (stageBatch_opError hopen hops hpre ?_))
  have hop := validateBatch_operation valid (.projectionPatch patch) (by simp [hops])
  obtain ⟨_, -, hop⟩ := bind_ok hop
  obtain ⟨_, hvalid, -⟩ := bind_ok hop
  show tx'.run (applyProjectionPatch tx'.db patch) = _
  rw [applyProjectionPatch_stale hvalid stale]
  rfl

/-- That version is the durable one plus one for each earlier patch. -/
theorem projectionVersion_in_batch {db : Db} {tx tx' : OpenBatch} {receipt : CommitReceipt}
    (hopen : openBatch db batch = .ok (tx, receipt)) {pre : List Operation}
    (hpre : pre.foldlM (applyOperation batch) tx = .ok tx') (projection : String)
    {patches : List ProjectionPatch} (hlog : PatchLog patches db) :
    (tx'.db.projectionVersion projection).toNat = (db.projectionVersion projection).toNat +
      (patchesOf (pre.filterMap Operation.patch) projection).length := by
  obtain ⟨transactions, sequence, -, htx, -⟩ := openBatch_ok hopen
  have hafter := applyOperations_patches hpre patchLog_invariant (hlog.of_meta (by rw [htx]))
  rw [hafter.current, hlog.current]
  simp [patchesOf]

end Conflicts

/-- Optimistic concurrency loses no update. In the journal of any run, which is
any interleaving of the clients' commits, no two transactions expect the same
version of a stream and append to it, and no two patches of a projection expect
the same version. A commit whose first failing check is an expectation reports
the version it met and writes nothing. -/
theorem no_lost_update (calls : List Call) :
    (∀ (i j : Nat) (b b' : CommitBatch) (e : ExpectedStreamVersion),
      (journal calls)[i]? = some (.batch b) → (journal calls)[j]? = some (.batch b') →
      e ∈ b.expectedStreamVersions → e ∈ b'.expectedStreamVersions →
      b.appendsTo e.streamId → b'.appendsTo e.streamId → i = j) ∧
    ((journal calls).flatMap Entry.patches).Pairwise (fun patch patch' =>
      patch.projection = patch'.projection → patch.expectedVersion ≠ patch'.expectedVersion) ∧
    (∀ limits batch step, validateBatch limits batch = .ok () →
      (controlPlane.after calls).db.transaction batch.transactionId = none →
      ∀ pre expected post, batch.expectedStreamVersions = pre ++ expected :: post →
      (∀ e ∈ pre, (controlPlane.after calls).db.streamVersion e.streamId = e.version) →
      (controlPlane.after calls).db.streamVersion expected.streamId ≠ expected.version →
      (controlPlane.after calls).commit limits batch step =
        ((controlPlane.after calls).connection, .error (.conflict (.streamVersion expected.streamId
          expected.version ((controlPlane.after calls).db.streamVersion expected.streamId))))) ∧
    ∀ limits batch step, validateBatch limits batch = .ok () →
      (controlPlane.after calls).db.transaction batch.transactionId = none →
      ∀ tx receipt, openBatch (controlPlane.after calls).db batch = .ok (tx, receipt) →
      ∀ pre patch post, batch.operations = pre ++ .projectionPatch patch :: post →
      ∀ tx', pre.foldlM (applyOperation batch) tx = .ok tx' →
      tx'.db.projectionVersion patch.projection ≠ patch.expectedVersion →
      ∃ actual, (controlPlane.after calls).commit limits batch step =
        ((controlPlane.after calls).connection, .error (.conflict (.projectionVersion
          patch.projection patch.expectedVersion actual))) ∧
        actual.toNat = ((controlPlane.after calls).db.projectionVersion patch.projection).toNat +
          (patchesOf (pre.filterMap Operation.patch) patch.projection).length := by
  refine ⟨?_, ?_, ?_, ?_⟩
  · intro i j b b' e hi hj he he' happends happends'
    exact Nat.le_antisymm (Nat.not_lt.mp (expectation_wins_once calls hj hi he' he happends'))
      (Nat.not_lt.mp (expectation_wins_once calls hi hj he he' happends))
  · rw [List.pairwise_iff_forall_sublist]
    intro patch patch' hsub hprojection hversion
    have hcount := (patches_count calls).expected patch.projection
    have hnodup : ((patchesOf ((journal calls).flatMap Entry.patches) patch.projection).map
        (·.expectedVersion.toNat)).Nodup := hcount ▸ List.nodup_range
    have hpair := ((hsub.filter fun q => decide (q.projection = patch.projection)).map
      (·.expectedVersion.toNat)).nodup hnodup
    simp [hprojection, hversion] at hpair
  · intro limits batch step valid free pre expected post hexpected met stale
    exact commit_streamConflict valid free hexpected met stale
  · intro limits batch step valid free tx receipt hopen pre patch post hops tx' hpre stale
    exact ⟨_, commit_projectionConflict valid free hopen hops hpre stale,
      projectionVersion_in_batch hopen hpre _ (patches_count calls)⟩

end Minisqlite
