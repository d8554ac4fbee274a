import Mathlib.Data.List.Pairwise
import Mathlib.Data.List.Perm.Basic
import Minisqlite.Lib.KeyMap

/-!
# Segments of a patch

A `clear` or a `replace` makes what was there before irrelevant. These mutations cut
a patch into segments; each opens the segment that it is in, and the keys of a
`replace` belong to it. Inside a segment that mentions no key twice the order of the
mutations, and of the entries of a `replace`, does not matter.

* `segments`, `Unambiguous`: the cut, and no key twice between two cuts.
* `Reordering`: the mutations of each segment in another order.
* `Reordering.unambiguous`, `Reordering.run_eq`: it changes nothing.
-/

namespace KeyMaps

universe u v

variable {κ : Type u} {ν : Type v}

/-- The mutation forgets what was there. -/
def Mutation.opens : Mutation κ ν → Bool
  | .clear | .replace _ => true
  | .put _ _ | .delete _ => false

/-- The keys that a mutation mentions. -/
def Mutation.keys : Mutation κ ν → List κ
  | .put key _ | .delete key => [key]
  | .clear => []
  | .replace entries => entries.map Prod.fst

/-- The segment that a patch begins in, and the ones that it opens. -/
def cut : List (Mutation κ ν) → List (Mutation κ ν) × List (List (Mutation κ ν))
  | [] => ([], [])
  | m :: ms =>
    if m.opens then ([], (m :: (cut ms).1) :: (cut ms).2) else (m :: (cut ms).1, (cut ms).2)

def segments (ms : List (Mutation κ ν)) : List (List (Mutation κ ν)) := (cut ms).1 :: (cut ms).2

/-- No segment mentions a key twice. -/
def Unambiguous (ms : List (Mutation κ ν)) : Prop :=
  ∀ segment ∈ segments ms, (segment.flatMap Mutation.keys).Nodup

/-- The same opening, its entries in any order. -/
inductive SameOpening : Mutation κ ν → Mutation κ ν → Prop
  | clear : SameOpening .clear .clear
  | replace {entries entries' : List (κ × ν)} (perm : entries.Perm entries') :
      SameOpening (.replace entries) (.replace entries')

/-- The openings stay in place, and the other mutations stay in their segments. -/
inductive Reordering : List (Mutation κ ν) → List (Mutation κ ν) → Prop
  | last {segment segment' : List (Mutation κ ν)} (inside : ∀ m ∈ segment, m.opens = false)
      (perm : segment.Perm segment') : Reordering segment segment'
  | next {segment segment' ms ms' : List (Mutation κ ν)} {m m' : Mutation κ ν}
      (inside : ∀ m ∈ segment, m.opens = false) (perm : segment.Perm segment')
      (same : SameOpening m m') (rest : Reordering ms ms') :
      Reordering (segment ++ m :: ms) (segment' ++ m' :: ms')

variable {segment ms ms' : List (Mutation κ ν)} {m m' : Mutation κ ν}

theorem SameOpening.opens (h : SameOpening m m') : m.opens = true ∧ m'.opens = true := by
  cases h <;> exact ⟨rfl, rfl⟩

theorem SameOpening.keys (h : SameOpening m m') : m.keys.Perm m'.keys := by
  cases h with
  | clear => exact .refl _
  | replace perm => exact perm.map _

theorem cut_cons_inside (hm : m.opens = false) :
    cut (m :: ms) = (m :: (cut ms).1, (cut ms).2) := by
  simp [cut, hm]

theorem cut_cons_opens (hm : m.opens = true) :
    cut (m :: ms) = ([], (m :: (cut ms).1) :: (cut ms).2) := by
  simp [cut, hm]

/-- Without an opening there is one segment. -/
theorem cut_inside (inside : ∀ m ∈ segment, m.opens = false) : cut segment = (segment, []) := by
  induction segment with
  | nil => rfl
  | cons m segment ih =>
    obtain ⟨hm, inside⟩ := List.forall_mem_cons.mp inside
    rw [cut_cons_inside hm, ih inside]

/-- An opening begins the next one. -/
theorem cut_next (inside : ∀ m ∈ segment, m.opens = false) (hm : m.opens = true) :
    cut (segment ++ m :: ms) = (segment, (m :: (cut ms).1) :: (cut ms).2) := by
  induction segment with
  | nil => exact cut_cons_opens hm
  | cons a segment ih =>
    obtain ⟨ha, inside⟩ := List.forall_mem_cons.mp inside
    rw [List.cons_append, cut_cons_inside ha, ih inside]

theorem unambiguous_iff : Unambiguous ms ↔ ((cut ms).1.flatMap Mutation.keys).Nodup ∧
    ∀ segment ∈ (cut ms).2, (segment.flatMap Mutation.keys).Nodup :=
  List.forall_mem_cons

/-- A patch that opens a segment, part by part. -/
theorem unambiguous_next (inside : ∀ m ∈ segment, m.opens = false) (hm : m.opens = true) :
    Unambiguous (segment ++ m :: ms) ↔ (segment.flatMap Mutation.keys).Nodup ∧
      (m.keys ++ (cut ms).1.flatMap Mutation.keys).Nodup ∧
      ∀ segment ∈ (cut ms).2, (segment.flatMap Mutation.keys).Nodup := by
  rw [unambiguous_iff, cut_next inside hm, List.forall_mem_cons, List.flatMap_cons]

/-! ## Reordering -/

theorem Reordering.first {ms ms' : List (Mutation κ ν)} (h : Reordering ms ms') :
    ((cut ms).1.flatMap Mutation.keys).Perm ((cut ms').1.flatMap Mutation.keys) := by
  cases h with
  | last inside perm =>
    rw [cut_inside inside, cut_inside fun m hm => inside m (perm.mem_iff.mpr hm)]
    exact perm.flatMap_right _
  | next inside perm same rest =>
    rw [cut_next inside same.opens.1,
      cut_next (fun m hm => inside m (perm.mem_iff.mpr hm)) same.opens.2]
    exact perm.flatMap_right _

/-- A reordering of an unambiguous patch is unambiguous. -/
theorem Reordering.unambiguous {ms ms' : List (Mutation κ ν)} (h : Reordering ms ms')
    (hms : Unambiguous ms) : Unambiguous ms' := by
  induction h with
  | last inside perm =>
    rw [unambiguous_iff, cut_inside inside] at hms
    rw [unambiguous_iff, cut_inside fun m hm => inside m (perm.mem_iff.mpr hm)]
    exact ⟨(perm.flatMap_right _).nodup_iff.mp hms.1, by simp⟩
  | next inside perm same rest ih =>
    obtain ⟨hsegment, hopened, hrest⟩ := (unambiguous_next inside same.opens.1).mp hms
    have hms' := unambiguous_iff.mp (ih (unambiguous_iff.mpr ⟨hopened.of_append_right, hrest⟩))
    refine (unambiguous_next (fun m hm => inside m (perm.mem_iff.mpr hm)) same.opens.2).mpr
      ⟨(perm.flatMap_right _).nodup_iff.mp hsegment, ?_, hms'.2⟩
    exact (same.keys.append rest.first).nodup_iff.mp hopened

section Effect

variable [DecidableEq κ]

/-- A mutation inside a segment sets its key. -/
theorem Mutation.apply_inside {m : Mutation κ ν} (hm : m.opens = false) :
    ∃ key value, m.keys = [key] ∧
      ∀ contents, m.apply contents = Function.update contents key value := by
  cases m with
  | put key value => exact ⟨key, some value, rfl, fun _ => rfl⟩
  | delete key => exact ⟨key, none, rfl, fun _ => rfl⟩
  | clear => cases hm
  | replace entries => cases hm

/-- Inside a segment without a key twice the order does not matter. -/
theorem run_perm {segment segment' : List (Mutation κ ν)}
    (inside : ∀ m ∈ segment, m.opens = false) (hkeys : (segment.flatMap Mutation.keys).Nodup)
    (perm : segment.Perm segment') (contents : Contents κ ν) :
    run contents segment = run contents segment' := by
  have : Std.Symm (Function.onFun List.Disjoint (Mutation.keys (κ := κ) (ν := ν))) :=
    ⟨fun _ _ => List.disjoint_symm⟩
  have hdisjoint := (List.nodup_flatMap.mp hkeys).2
  refine perm.foldl_eq' (fun m hm m' hm' contents => ?_) contents
  by_cases he : m = m'
  · rw [he]
  · have hapart : m.keys.Disjoint m'.keys := hdisjoint.forall hm hm' he
    obtain ⟨key, value, hkey, hset⟩ := Mutation.apply_inside (inside m hm)
    obtain ⟨key', value', hkey', hset'⟩ := Mutation.apply_inside (inside m' hm')
    rw [hkey, hkey', List.singleton_disjoint, List.mem_singleton] at hapart
    rw [hset, hset', hset, hset', Function.update_comm hapart]

theorem Contents.ofEntries_perm {entries entries' : List (κ × ν)} (perm : entries.Perm entries')
    (nodup : (entries.map Prod.fst).Nodup) :
    Contents.ofEntries entries = Contents.ofEntries entries' := by
  funext key
  refine Option.ext fun value => ?_
  rw [ofEntries_iff nodup, ofEntries_iff ((perm.map Prod.fst).nodup_iff.mp nodup), perm.mem_iff]

/-- The same opening leaves the same contents, whatever was there. -/
theorem SameOpening.apply_eq {m m' : Mutation κ ν} (h : SameOpening m m') (nodup : m.keys.Nodup)
    (contents contents' : Contents κ ν) : m.apply contents = m'.apply contents' := by
  cases h with
  | clear => rfl
  | replace perm => exact Contents.ofEntries_perm perm nodup

theorem Reordering.run_eq {ms ms' : List (Mutation κ ν)} (h : Reordering ms ms')
    (hms : Unambiguous ms) (contents : Contents κ ν) : run contents ms = run contents ms' := by
  induction h generalizing contents with
  | last inside perm =>
    rw [unambiguous_iff, cut_inside inside] at hms
    exact run_perm inside hms.1 perm contents
  | next inside perm same rest ih =>
    obtain ⟨-, hopened, hrest⟩ := (unambiguous_next inside same.opens.1).mp hms
    rw [run_append, run_append, run_cons, run_cons, ih (unambiguous_iff.mpr
      ⟨hopened.of_append_right, hrest⟩), same.apply_eq hopened.of_append_left]

end Effect

end KeyMaps
