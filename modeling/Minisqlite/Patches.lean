import Minisqlite.Lib.Segments
import Minisqlite.Projections

/-!
# What a patch may say

`validate` goes through a patch once, with the set of keys that it has seen since
the last `Clear` or `Replace`. That is the check that no segment mentions a key
twice; and for such a patch the order of the mutations inside a segment does not
matter.

* `seenMutations_ok`: the loop, from any set of seen keys.
* `validate_iff`: what is accepted.
* `patch_order_irrelevant`: with what a reordered patch leaves behind.
-/

namespace Minisqlite

open Tables Runs KeyMaps

namespace PatchLemmas

variable {projection : String} {seen : List Bytes}

theorem replace_keys (entries : List ProjectionEntry) :
    (ProjectionMutation.replace entries).mutation.keys = entries.map ProjectionEntry.key := by
  rw [ProjectionMutation.mutation, Mutation.keys, List.map_map]
  rfl

/-- The loop over the mutations: it accepts the rest of the segment that it is in, and
the segments after that. -/
theorem seenMutations_ok (hseen : seen.Nodup) {mutations : List ProjectionMutation} :
    (∃ seen', mutations.foldlM (ProjectionPatch.seenMutation projection) seen = .ok seen') ↔
      (seen ++ (cut (mutations.map ProjectionMutation.mutation)).1.flatMap Mutation.keys).Nodup ∧
        ∀ segment ∈ (cut (mutations.map ProjectionMutation.mutation)).2,
          (segment.flatMap Mutation.keys).Nodup := by
  induction mutations generalizing seen with
  | nil => exact iff_of_true ⟨seen, rfl⟩ (by simpa [cut] using hseen)
  | cons mutation mutations ih =>
    rw [List.foldlM_cons, List.map_cons]
    -- A key inside the segment joins those that were seen.
    have hinside : ∀ key message, mutation.mutation.opens = false →
        mutation.mutation.keys = [key] →
        ProjectionPatch.seenMutation projection seen mutation =
          (if key ∈ seen then .error message else .ok (key :: seen)) →
        ((∃ seen', ProjectionPatch.seenMutation projection seen mutation >>= (fun seen =>
            mutations.foldlM (ProjectionPatch.seenMutation projection) seen) = .ok seen') ↔
          (seen ++ (cut (mutation.mutation :: mutations.map ProjectionMutation.mutation)).1.flatMap
              Mutation.keys).Nodup ∧
            ∀ segment ∈ (cut (mutation.mutation :: mutations.map ProjectionMutation.mutation)).2,
              (segment.flatMap Mutation.keys).Nodup) := by
      intro key message hopens hkeys hstep
      rw [cut_cons_inside hopens, hstep, List.flatMap_cons, hkeys, List.singleton_append]
      split
      · next hmem =>
        refine iff_of_false (by rintro ⟨_, ⟨⟩⟩) fun h => ?_
        exact (List.nodup_middle.mp h.1 |> List.nodup_cons.mp).1 (List.mem_append_left _ hmem)
      · next hfree =>
        rw [List.perm_middle.nodup_iff, ← List.cons_append]
        exact ih (List.nodup_cons.mpr ⟨hfree, hseen⟩)
    cases mutation with
    | put key value => exact hinside key _ rfl rfl rfl
    | delete key => exact hinside key _ rfl rfl rfl
    | clear =>
      rw [cut_cons_opens rfl, List.flatMap_nil, List.append_nil, List.forall_mem_cons]
      exact (ih .nil).trans (by simp [hseen, ProjectionMutation.mutation, Mutation.keys])
    | replace entries =>
      rw [cut_cons_opens rfl, List.flatMap_nil, List.append_nil, List.forall_mem_cons,
        List.flatMap_cons, replace_keys]
      change (∃ seen', ProjectionPatch.seenEntries projection [] entries >>= _ = .ok seen') ↔ _
      have hbaseline : ∀ baseline,
          ProjectionPatch.seenEntries projection [] entries = .ok baseline ↔ _ :=
        fun _ => ProjectionLemmas.seenEntries_ok .nil
      cases hentries : ProjectionPatch.seenEntries projection [] entries with
      | error e =>
        refine iff_of_false (by rintro ⟨_, ⟨⟩⟩) fun h => ?_
        have hok := (hbaseline _).mpr ⟨rfl, by
          rw [List.append_nil, List.nodup_reverse]
          exact h.2.1.of_append_left⟩
        rw [hentries] at hok
        cases hok
      | ok baseline =>
        obtain ⟨rfl, hnodup⟩ := (hbaseline baseline).mp hentries
        rw [List.append_nil] at hnodup
        refine (ih (by rwa [List.append_nil])).trans ?_
        rw [List.append_nil, ((List.reverse_perm _).append_right _).nodup_iff]
        simp [hseen]

end PatchLemmas

open PatchLemmas

/-- Exactly the patches are valid that move the version up by one, without wrapping
around, and mention no key twice in one segment. -/
theorem validate_iff {patch : ProjectionPatch} : patch.validate = .ok () ↔
    patch.newVersion.toNat = patch.expectedVersion.toNat + 1 ∧ Unambiguous patch.script := by
  have hseen : (∃ seen, patch.mutations.foldlM (ProjectionPatch.seenMutation patch.projection) [] =
      .ok seen) ↔ _ := seenMutations_ok .nil
  rw [List.nil_append, ← ProjectionPatch.script, ← unambiguous_iff] at hseen
  rw [← ProjectionPatch.next_version, ← hseen]
  unfold ProjectionPatch.validate
  split
  · next hversion => exact iff_of_false nofun fun h => not_or.mpr (h.1.imp not_not.mpr id) hversion
  · next hversion =>
    cases patch.mutations.foldlM (ProjectionPatch.seenMutation patch.projection) [] with
    | error e => exact iff_of_false nofun nofun
    | ok seen => exact iff_of_true rfl ⟨(not_or.mp hversion).imp not_not.mp id, seen, rfl⟩

/-- The patch with its mutations in another order inside each segment. -/
structure ProjectionPatch.Reorders (patch patch' : ProjectionPatch) : Prop where
  projection : patch'.projection = patch.projection
  expectedVersion : patch'.expectedVersion = patch.expectedVersion
  newVersion : patch'.newVersion = patch.newVersion
  mutations : Reordering patch.script patch'.script

/-- Patch validation, and the order of a patch. `validate` accepts exactly the patches
that are one version up and have no key twice in a segment. If it accepts a patch, then
also every reordering of it, and from any state both are refused alike or leave the
same versions and contents behind. -/
theorem patch_order_irrelevant :
    (∀ patch : ProjectionPatch, patch.validate = .ok () ↔
      patch.newVersion.toNat = patch.expectedVersion.toNat + 1 ∧
        ∀ segment ∈ segments patch.script, (segment.flatMap Mutation.keys).Nodup) ∧
    ∀ patch patch' : ProjectionPatch, patch.validate = .ok () → patch.Reorders patch' →
      patch'.validate = .ok () ∧ ∀ db : Db,
        (∃ e, applyProjectionPatch db patch = .error e ∧
          applyProjectionPatch db patch' = .error e) ∨
        ∃ db₁ db₂, applyProjectionPatch db patch = .ok db₁ ∧
          applyProjectionPatch db patch' = .ok db₂ ∧
          db₂ = { db₁ with projectionEntries := db₂.projectionEntries } ∧
          ∀ projection, db₁.projectionVersion projection = db₂.projectionVersion projection ∧
            projectionGet db₁ projection = projectionGet db₂ projection := by
  refine ⟨fun patch => validate_iff, fun patch patch' hvalid h => ?_⟩
  obtain ⟨hversion, hunambiguous⟩ := validate_iff.mp hvalid
  have hvalid' : patch'.validate = .ok () := by
    refine validate_iff.mpr ⟨?_, h.mutations.unambiguous hunambiguous⟩
    rw [h.newVersion, h.expectedVersion, hversion]
  refine ⟨hvalid', fun db => ?_⟩
  by_cases hcurrent : db.projectionVersion patch.projection = patch.expectedVersion
  · obtain ⟨db₁, hdb₁⟩ := ProjectionLemmas.applyProjectionPatch_total hvalid hcurrent
    have hcurrent' : db.projectionVersion patch'.projection = patch'.expectedVersion := by
      rw [h.projection, h.expectedVersion, hcurrent]
    obtain ⟨db₂, hdb₂⟩ := ProjectionLemmas.applyProjectionPatch_total hvalid' hcurrent'
    obtain ⟨-, -, entries₁, hrow₁⟩ := applyProjectionPatch_ok hdb₁
    obtain ⟨-, -, entries₂, hrow₂⟩ := applyProjectionPatch_ok hdb₂
    have hsame : db₂ = { db₁ with projectionEntries := db₂.projectionEntries } := by
      rw [hrow₁, hrow₂, h.projection, h.newVersion]
    refine .inr ⟨db₁, db₂, hdb₁, hdb₂, hsame, fun projection => ⟨?_, ?_⟩⟩
    · rw [hsame]
      rfl
    · rw [ProjectionLemmas.applyProjectionPatch_get hdb₁,
        ProjectionLemmas.applyProjectionPatch_get hdb₂, h.projection,
        h.mutations.run_eq hunambiguous]
  · have hstale' : db.projectionVersion patch'.projection ≠ patch'.expectedVersion := by
      rwa [h.projection, h.expectedVersion]
    refine .inl ⟨_, applyProjectionPatch_stale hvalid hcurrent, ?_⟩
    rw [applyProjectionPatch_stale hvalid' hstale', h.projection, h.expectedVersion]

/-- A patch that writes two keys after a `Clear`. -/
def samplePatch : ProjectionPatch :=
  { projection := "totals", expectedVersion := 0, newVersion := 1,
    mutations := [.delete [7], .clear, .put [7] [1], .put [8] [2]] }

/-- The two writes the other way round. -/
def samplePatchReordered : ProjectionPatch :=
  { samplePatch with mutations := [.delete [7], .clear, .put [8] [2], .put [7] [1]] }

theorem patch_order_irrelevant_sample : samplePatchReordered.validate = .ok () := by
  have hwrites : @Reordering Bytes Bytes
      [.put [7] [1], .put [8] [2]] [.put [8] [2], .put [7] [1]] :=
    .last (by simp [Mutation.opens]) (.swap _ _ _)
  have hscript : @Reordering Bytes Bytes ([.delete [7]] ++ .clear :: [.put [7] [1], .put [8] [2]])
      ([.delete [7]] ++ .clear :: [.put [8] [2], .put [7] [1]]) :=
    .next (by simp [Mutation.opens]) (.refl _) .clear hwrites
  exact (patch_order_irrelevant.2 samplePatch samplePatchReordered rfl
    ⟨rfl, rfl, rfl, hscript⟩).1

end Minisqlite
