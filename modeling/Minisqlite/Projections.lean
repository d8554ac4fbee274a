import Minisqlite.Lib.KeyMap
import Minisqlite.Optimistic
import Minisqlite.Store.Projections

/-!
# Projections

A projection is a key-value map, and a patch is a list of mutations of it. The
store keeps the map as rows of `projection_entries`; here the rows are read back
as the map, and each statement as its mutation.

1. `applyMutation_get`, `applyProjectionPatch_get`: what a patch does to the map of
   its projection, and that it leaves the other maps alone.
2. `applyProjectionPatch_total`: a valid patch of the current version always
   applies. The INSERTs of a `Replace` meet no duplicate key, because `validate` has
   seen all its keys and found them different.
3. `projections_fold`: after any run each projection is the fold of its committed
   patches.
-/

namespace Minisqlite

open Tables Runs KeyMaps

/-! ## Projections as maps -/

/-- The mutation of the map. -/
def ProjectionMutation.mutation : ProjectionMutation → Mutation Bytes Bytes
  | .put key value => .put key value
  | .delete key => .delete key
  | .clear => .clear
  | .replace entries => .replace (entries.map fun entry => (entry.key, entry.value))

/-- The patch as mutations of the map, in order. -/
def ProjectionPatch.script (patch : ProjectionPatch) : List (Mutation Bytes Bytes) :=
  patch.mutations.map ProjectionMutation.mutation

/-- What the patches make of one projection, from the empty map on. -/
def contentsAfter (patches : List ProjectionPatch) (projection : String) : Contents Bytes Bytes :=
  run .empty ((patchesOf patches projection).flatMap ProjectionPatch.script)

/-- No key is in the `Replace` twice. -/
def ProjectionMutation.Unambiguous (mutation : ProjectionMutation) : Prop :=
  ∀ entries, mutation = .replace entries → (entries.map ProjectionEntry.key).Nodup

namespace ProjectionLemmas

open EffectLemmas

/-! ## What `validate` has seen -/

/-- The loop over the entries of a `Replace`. -/
theorem seenEntries_ok {projection : String} {entries : List ProjectionEntry}
    {seen seen' : List Bytes} (hseen : seen.Nodup) :
    ProjectionPatch.seenEntries projection seen entries = .ok seen' ↔
      seen' = (entries.map ProjectionEntry.key).reverse ++ seen ∧ seen'.Nodup := by
  induction entries generalizing seen with
  | nil =>
    rw [ProjectionPatch.seenEntries, Except.ok.injEq]
    constructor
    · rintro rfl
      exact ⟨rfl, hseen⟩
    · rintro ⟨rfl, -⟩
      rfl
  | cons entry entries ih =>
    rw [ProjectionPatch.seenEntries]
    split
    · next hmem =>
      refine iff_of_false nofun ?_
      rintro ⟨rfl, hnodup⟩
      rw [List.map_cons, List.reverse_cons, List.append_assoc] at hnodup
      exact (List.nodup_cons.mp hnodup.of_append_right).1 hmem
    · next hfree =>
      rw [ih (List.nodup_cons.mpr ⟨hfree, hseen⟩)]
      simp

/-- A valid patch has no `Replace` with a key twice. -/
theorem validate_unambiguous {patch : ProjectionPatch} (h : patch.validate = .ok ()) :
    ∀ mutation ∈ patch.mutations, mutation.Unambiguous := by
  unfold ProjectionPatch.validate at h
  split at h
  · cases h
  obtain ⟨seen, hfold, -⟩ := bind_ok h
  rintro mutation hmutation entries rfl
  obtain ⟨_, _, -, hpass⟩ := foldlM_mem (P := fun _ => True) (fun _ _ _ _ _ => trivial) hfold
    trivial _ hmutation
  obtain ⟨rfl, hnodup⟩ := (seenEntries_ok .nil).mp hpass
  rwa [List.append_nil, List.nodup_reverse] at hnodup

/-! ## Statements as mutations -/

section Statements

variable {db db' : Db} {projection : String}

theorem entries_unique :
    Unique projectionEntriesSchema fun row : ProjectionEntryRow => (row.projection, row.key) :=
  Schema.keyed_unique _

theorem entry_key {key : Bytes} {row : ProjectionEntryRow}
    (h : db.entry projection key = some row) :
    row.projection = projection ∧ row.key = key :=
  Prod.mk.inj ((Table.lookup_iff entries_unique).mp h).2

theorem entry_delete (db : Db) (p : ProjectionEntryRow → Bool) (projection : String) (key : Bytes) :
    Db.entry { db with projectionEntries := db.projectionEntries.delete p } projection key =
      (db.entry projection key).filter fun row => !p row :=
  Table.lookup_delete entries_unique _ _ _

/-- The projection has no entries after `clear_entries`, and the others have theirs. -/
theorem clearEntries_get (db : Db) (projection projection' : String) (key : Bytes) :
    projectionGet (clearEntries db projection) projection' key =
      if projection = projection' then none else projectionGet db projection' key := by
  rw [projectionGet, clearEntries, entry_delete, projectionGet]
  cases hrow : db.entry projection' key with
  | none => simp
  | some row =>
    by_cases hp : projection = projection'
    · simp [(entry_key hrow).1, hp]
    · simp [(entry_key hrow).1, hp, Ne.symm hp, Option.filter]

theorem insertEntry_get {entry : ProjectionEntry}
    (h : insertEntry projection db entry = .ok db') (projection' : String) (key : Bytes) :
    projectionGet db' projection' key = if projection = projection' ∧ entry.key = key then
      some entry.value else projectionGet db projection' key := by
  obtain ⟨_, -, h⟩ := bind_ok h
  obtain ⟨entries, hinsert, h⟩ := bind_ok h
  cases h
  have hinsert := execute_ok.mp hinsert
  have hfree : db.entry projection entry.key = none :=
    Table.lookup_insert_free entries_unique hinsert
  have hentry : Db.entry { db with projectionEntries := entries } projection' key = _ :=
    Table.lookup_append (Table.insert_eq_some hinsert).1 _
  rw [projectionGet, hentry, projectionGet, Db.entry]
  by_cases hp : projection = projection' ∧ entry.key = key
  · obtain ⟨rfl, rfl⟩ := hp
    rw [Db.entry] at hfree
    simp [hfree]
  · simp [hp]

/-- A list of INSERTs adds its entries. -/
theorem insertEntries_get {entries : List ProjectionEntry}
    (nodup : (entries.map ProjectionEntry.key).Nodup)
    (h : entries.foldlM (insertEntry projection) db = .ok db') (projection' : String)
    (key : Bytes) :
    projectionGet db' projection' key = if projection = projection' then
      (Contents.ofEntries (entries.map fun entry => (entry.key, entry.value)) key).or
        (projectionGet db projection' key)
      else projectionGet db projection' key := by
  induction entries generalizing db with
  | nil => cases h; simp
  | cons entry entries ih =>
    obtain ⟨hkey, hrest⟩ := List.nodup_cons.mp nodup
    obtain ⟨t, ht, h⟩ := foldlM_cons_ok h
    rw [ih hrest h, insertEntry_get ht]
    by_cases hp : projection = projection'
    · by_cases hk : entry.key = key
      · -- The key is not inserted again.
        have hlast : Contents.ofEntries (entries.map fun entry => (entry.key, entry.value)) key =
            none := by
          refine Contents.ofEntries_eq_none fun other hother he => hkey ?_
          obtain ⟨old, hold, rfl⟩ := List.mem_map.mp hother
          exact List.mem_map.mpr ⟨old, hold, he.trans hk.symm⟩
        simp [hp, hk, hlast]
      · simp [hp, hk]
    · simp [hp]

/-- A statement of a patch is a mutation of the map of its projection. -/
theorem applyMutation_get {mutation : ProjectionMutation} (unambiguous : mutation.Unambiguous)
    (h : applyMutation projection db mutation = .ok db') (projection' : String) :
    projectionGet db' projection' = if projection = projection' then
      mutation.mutation.apply (projectionGet db projection')
      else projectionGet db projection' := by
  funext key
  cases mutation with
  | put newKey value =>
    obtain ⟨_, -, h⟩ := bind_ok h
    cases h
    rw [projectionGet, Db.entry, Table.lookup_upsert]
    by_cases hp : projection = projection'
    · by_cases hk : key = newKey
      · subst hp hk
        cases hrow : db.projectionEntries.lookup (fun row => (row.projection, row.key))
          (projection, key) <;> simp [ProjectionMutation.mutation, Mutation.apply]
      · simp [hp, hk, Ne.symm hk, ProjectionMutation.mutation, Mutation.apply, projectionGet,
          Db.entry]
    · simp [hp, projectionGet, Db.entry]
  | delete oldKey =>
    cases h
    rw [projectionGet, entry_delete]
    by_cases hp : projection = projection'
    · rw [if_pos hp, ProjectionMutation.mutation, Mutation.apply, Function.update_apply,
        projectionGet]
      cases hrow : db.entry projection' key with
      | none => simp
      | some row =>
        by_cases hk : key = oldKey <;> simp [entry_key hrow, hp, hk, Option.filter]
    · rw [if_neg hp, projectionGet]
      cases hrow : db.entry projection' key with
      | none => rfl
      | some row => simp [entry_key hrow, Ne.symm hp, Option.filter]
  | clear =>
    cases h
    rw [clearEntries_get]
    split <;> rfl
  | replace entries =>
    rw [insertEntries_get (unambiguous entries rfl) h, clearEntries_get]
    split <;> simp [ProjectionMutation.mutation, Mutation.apply]

end Statements

/-! ## Patches -/

section Patches

variable {db db' : Db} {projection : String} {patch : ProjectionPatch}

theorem applyMutations_get {mutations : List ProjectionMutation}
    (unambiguous : ∀ mutation ∈ mutations, mutation.Unambiguous)
    (h : mutations.foldlM (applyMutation projection) db = .ok db') (projection' : String) :
    projectionGet db' projection' = if projection = projection' then
      run (projectionGet db projection') (mutations.map ProjectionMutation.mutation)
      else projectionGet db projection' := by
  induction mutations generalizing db with
  | nil => cases h; simp
  | cons mutation mutations ih =>
    obtain ⟨t, ht, h⟩ := foldlM_cons_ok h
    rw [ih (fun m hm => unambiguous m (List.mem_cons_of_mem _ hm)) h,
      applyMutation_get (unambiguous mutation List.mem_cons_self) ht]
    split <;> rfl

/-- A patch runs its script on the map of its projection. -/
theorem applyProjectionPatch_get (h : applyProjectionPatch db patch = .ok db')
    (projection' : String) :
    projectionGet db' projection' = if patch.projection = projection' then
      run (projectionGet db projection') patch.script else projectionGet db projection' := by
  obtain ⟨_, hvalid, h⟩ := bind_ok h
  split at h
  · cases h
  · exact applyMutations_get (validate_unambiguous (mapError_eq_ok.mp hvalid)) h projection'

/-! ## Success -/

/-- An INSERT of a key that has no value. -/
theorem insertEntry_total {entry : ProjectionEntry}
    (hmeta : db.requireProjection projection = some ())
    (hfree : projectionGet db projection entry.key = none) :
    ∃ entries, insertEntry projection db entry = .ok { db with projectionEntries := entries } := by
  have hlookup : db.entry projection entry.key = none := Option.map_eq_none_iff.mp hfree
  obtain ⟨entries, hinsert⟩ := Table.insert_isSome (t := db.projectionEntries)
    (r := ⟨projection, entry.key, entry.value⟩) rfl
    fun row hrow => decide_eq_false (Table.lookup_eq_none.mp hlookup row hrow)
  exact ⟨entries, bind_eq_ok.mpr ⟨(), execute_ok.mpr hmeta, by rw [hinsert]; rfl⟩⟩

/-- The entries of a `Replace` that are still to be inserted: different keys, all free. -/
structure Insertable (projection : String) (entries : List ProjectionEntry) (db : Db) : Prop where
  nodup : (entries.map ProjectionEntry.key).Nodup
  listed : db.requireProjection projection = some ()
  free : ∀ entry ∈ entries, projectionGet db projection entry.key = none

/-- The INSERTs of a `Replace` find no key taken. -/
theorem insertEntries_total {entries : List ProjectionEntry}
    (h : Insertable projection entries db) :
    ∃ db', entries.foldlM (insertEntry projection) db = .ok db' ∧
      db'.requireProjection projection = some () := by
  have step : ∀ entry entries d, Insertable projection (entry :: entries) d →
      ∃ d', insertEntry projection d entry = .ok d' ∧ Insertable projection entries d' := by
    intro entry entries d h
    obtain ⟨hkey, hrest⟩ := List.nodup_cons.mp h.nodup
    obtain ⟨rows, hrows⟩ := insertEntry_total h.listed (h.free entry List.mem_cons_self)
    refine ⟨_, hrows, hrest, h.listed, fun e he => ?_⟩
    have hne : entry.key ≠ e.key := fun hk => hkey (List.mem_map.mpr ⟨e, he, hk.symm⟩)
    rw [insertEntry_get hrows, if_neg (by simp [hne])]
    exact h.free e (List.mem_cons_of_mem _ he)
  obtain ⟨db', hdb', hend⟩ := foldlM_total step h
  exact ⟨db', hdb', hend.listed⟩

theorem applyMutation_total {mutation : ProjectionMutation} (unambiguous : mutation.Unambiguous)
    (hmeta : db.requireProjection projection = some ()) :
    ∃ db', applyMutation projection db mutation = .ok db' ∧
      db'.requireProjection projection = some () := by
  cases mutation with
  | put key value => exact ⟨_, bind_eq_ok.mpr ⟨(), execute_ok.mpr hmeta, rfl⟩, hmeta⟩
  | delete key => exact ⟨_, rfl, hmeta⟩
  | clear => exact ⟨_, rfl, hmeta⟩
  | replace entries =>
    exact insertEntries_total ⟨unambiguous entries rfl, hmeta, fun entry _ => by
      rw [clearEntries_get, if_pos rfl]⟩

/-- A valid patch of the current version applies. -/
theorem applyProjectionPatch_total (valid : patch.validate = .ok ())
    (current : db.projectionVersion patch.projection = patch.expectedVersion) :
    ∃ db', applyProjectionPatch db patch = .ok db' := by
  have hmeta : (setProjectionVersion db patch.projection
      patch.newVersion.toInt64).requireProjection patch.projection = some () := by
    rw [Db.requireProjection, setProjectionVersion, Table.lookup_upsert, if_pos rfl]
    rfl
  obtain ⟨db', hdb', -⟩ := foldlM_total (f := applyMutation patch.projection)
    (P := fun mutations d => (∀ mutation ∈ mutations, mutation.Unambiguous) ∧
      d.requireProjection patch.projection = some ())
    (fun mutation mutations d hmutations => by
      obtain ⟨hclear, hlisted⟩ := hmutations
      obtain ⟨d', hd', hlisted'⟩ := applyMutation_total (hclear mutation List.mem_cons_self) hlisted
      exact ⟨d', hd', fun m hm => hclear m (List.mem_cons_of_mem _ hm), hlisted'⟩)
    ⟨validate_unambiguous valid, hmeta⟩
  refine ⟨db', ?_⟩
  unfold applyProjectionPatch
  rw [valid]
  show (if _ then _ else _) = _
  rw [if_neg (not_not.mpr current)]
  exact hdb'

end Patches

/-! ## Runs -/

/-- Each projection is what the patches make of it. -/
def Folded (patches : List ProjectionPatch) (db : Db) : Prop :=
  ∀ projection, projectionGet db projection = contentsAfter patches projection

theorem contentsAfter_append (patches more : List ProjectionPatch) (projection : String) :
    contentsAfter (patches ++ more) projection =
      run (contentsAfter patches projection)
        ((patchesOf more projection).flatMap ProjectionPatch.script) := by
  simp [contentsAfter, patchesOf]

theorem folded_invariant : PatchInvariant Folded where
  frame patches d d' _ hentries h projection := by
    rw [← h projection]
    funext key
    rw [projectionGet, projectionGet, Db.entry, Db.entry, hentries]
  patched patches d d' patch happly h projection := by
    rw [applyProjectionPatch_get happly, contentsAfter_append, h]
    by_cases hp : patch.projection = projection <;> simp [patchesOf, hp]

/-- The patches that apply are valid. -/
theorem valid_invariant :
    PatchInvariant fun patches _ => ∀ patch ∈ patches, patch.validate = .ok () where
  frame _ _ _ _ _ h := h
  patched patches d d' patch happly h p hp := by
    rcases List.mem_append.mp hp with hp | hp
    · exact h p hp
    · obtain rfl := List.mem_singleton.mp hp
      exact (applyProjectionPatch_ok happly).1

end ProjectionLemmas

open ProjectionLemmas

/-- Projections are the fold of their patches. In every reachable state a projection
is what the mutations of its committed patches make of the empty map, in the order of
the commits, and its version is their number; no `Replace` among them names a key
twice, so it leaves exactly its entries. A call that commits no patch of a projection
leaves the projection as it was. And in any state a valid patch of the current version
applies. -/
theorem projections_fold (calls : List Call) :
    (∀ projection,
      projectionGet (controlPlane.after calls).db projection =
        contentsAfter ((journal calls).flatMap Entry.patches) projection ∧
      ((controlPlane.after calls).db.projectionVersion projection).toNat =
        (patchesOf ((journal calls).flatMap Entry.patches) projection).length) ∧
    (∀ patch ∈ (journal calls).flatMap Entry.patches, ∀ entries,
      .replace entries ∈ patch.mutations → (entries.map ProjectionEntry.key).Nodup) ∧
    (∀ call projection,
      (∀ patch ∈ ((controlPlane.after calls).entries call).flatMap Entry.patches,
        patch.projection ≠ projection) →
      projectionGet (controlPlane.next (controlPlane.after calls) call).db projection =
        projectionGet (controlPlane.after calls).db projection ∧
      (controlPlane.next (controlPlane.after calls) call).db.projectionVersion projection =
        (controlPlane.after calls).db.projectionVersion projection) ∧
    ∀ (db : Db) (patch : ProjectionPatch), patch.validate = .ok () →
      db.projectionVersion patch.projection = patch.expectedVersion →
      ∃ db', applyProjectionPatch db patch = .ok db' := by
  have hfolded := patches_after folded_invariant (fun _ => rfl) calls
  have hcount := patches_count calls
  refine ⟨fun projection => ⟨hfolded projection, hcount.current projection⟩, ?_, ?_,
    fun db patch => applyProjectionPatch_total⟩
  · intro patch hpatch entries hentries
    have hvalid := patches_after valid_invariant (by simp) calls patch hpatch
    exact validate_unambiguous hvalid _ hentries entries rfl
  · intro call projection hother
    have hnone : patchesOf (((controlPlane.after calls).entries call).flatMap Entry.patches)
        projection = [] := by
      simpa [patchesOf] using hother
    have heffect := next_effect (controlPlane.after calls) call
    constructor
    · rw [heffect.patched folded_invariant hfolded projection, contentsAfter_append, hnone,
        hfolded projection]
      rfl
    · refine UInt64.toNat_inj.mp ?_
      rw [(heffect.patched patchLog_invariant hcount).current, hcount.current]
      rw [patchesOf, List.filter_append, ← patchesOf, ← patchesOf, hnone, List.append_nil]

end Minisqlite
