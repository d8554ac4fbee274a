import Mathlib.Data.List.Nodup
import Mathlib.Logic.Function.Basic

/-!
# Key-value maps under mutations

The contents of a keyed store: a value for some of the keys. A patch is a list of
mutations, applied in order.

* `Contents.ofEntries`: the map with these entries. `ofEntries_iff`: and no others.
* `Mutation.apply`, `run`: what one mutation and what a list of them does.
* `run_append`: patch after patch. `writes_of_run`: every binding was written by some
  mutation.
-/

namespace KeyMaps

universe u v

variable {κ : Type u} {ν : Type v}

/-- The value of each key that has one. -/
abbrev Contents (κ : Type u) (ν : Type v) := κ → Option ν

/-- One change of the contents. -/
inductive Mutation (κ : Type u) (ν : Type v)
  | put (key : κ) (value : ν)
  | delete (key : κ)
  | clear
  | replace (entries : List (κ × ν))

variable [DecidableEq κ]

/-- No entries. -/
def Contents.empty : Contents κ ν := fun _ => none

/-- The contents with these entries; the first one of a key counts. -/
def Contents.ofEntries (entries : List (κ × ν)) : Contents κ ν := fun key =>
  (entries.find? fun entry => decide (entry.1 = key)).map Prod.snd

@[simp] theorem Contents.ofEntries_nil (key : κ) :
    Contents.ofEntries ([] : List (κ × ν)) key = none :=
  rfl

@[simp] theorem Contents.ofEntries_cons (entry : κ × ν) (entries : List (κ × ν)) (key : κ) :
    Contents.ofEntries (entry :: entries) key =
      if entry.1 = key then some entry.2 else Contents.ofEntries entries key := by
  by_cases h : entry.1 = key <;> simp [Contents.ofEntries, h]

theorem Contents.ofEntries_eq_none {entries : List (κ × ν)} {key : κ}
    (h : ∀ entry ∈ entries, entry.1 ≠ key) : Contents.ofEntries entries key = none := by
  simpa [Contents.ofEntries, List.find?_eq_none] using h

/-- Where each key has one entry, the map has exactly these. -/
theorem Contents.ofEntries_iff {entries : List (κ × ν)} (nodup : (entries.map Prod.fst).Nodup)
    {key : κ} {value : ν} :
    Contents.ofEntries entries key = some value ↔ (key, value) ∈ entries := by
  rw [Contents.ofEntries, Option.map_eq_some_iff]
  constructor
  · rintro ⟨⟨_, _⟩, hfind, rfl⟩
    obtain rfl : _ = key := by simpa using List.find?_some hfind
    exact List.mem_of_find?_eq_some hfind
  · intro hmem
    cases hfind : entries.find? fun entry => decide (entry.1 = key) with
    | none => simpa using List.find?_eq_none.mp hfind _ hmem
    | some entry =>
      have hkey : entry.1 = key := by simpa using List.find?_some hfind
      rw [List.inj_on_of_nodup_map nodup (List.mem_of_find?_eq_some hfind) hmem hkey]
      exact ⟨_, rfl, rfl⟩

/-- What a mutation does. -/
def Mutation.apply (contents : Contents κ ν) : Mutation κ ν → Contents κ ν
  | .put key value => Function.update contents key (some value)
  | .delete key => Function.update contents key none
  | .clear => .empty
  | .replace entries => .ofEntries entries

/-- One mutation after the other. -/
def run (contents : Contents κ ν) (mutations : List (Mutation κ ν)) : Contents κ ν :=
  mutations.foldl Mutation.apply contents

@[simp] theorem run_nil (contents : Contents κ ν) : run contents [] = contents := rfl

@[simp] theorem run_cons (contents : Contents κ ν) (m : Mutation κ ν) (ms : List (Mutation κ ν)) :
    run contents (m :: ms) = run (m.apply contents) ms := rfl

@[simp] theorem run_append (contents : Contents κ ν) (ms ms' : List (Mutation κ ν)) :
    run contents (ms ++ ms') = run (run contents ms) ms' := by
  simp [run]

/-- The mutation binds the key to the value. -/
def Mutation.writes (key : κ) (value : ν) : Mutation κ ν → Prop
  | .put key' value' => key' = key ∧ value' = value
  | .replace entries => (key, value) ∈ entries
  | _ => False

/-- A binding is an old one, or the mutation writes it. -/
theorem Mutation.writes_of_apply {contents : Contents κ ν} {m : Mutation κ ν} {key : κ} {value : ν}
    (h : m.apply contents key = some value) : contents key = some value ∨ m.writes key value := by
  cases m with
  | put key' value' =>
    by_cases he : key = key'
    · subst he
      rw [Mutation.apply, Function.update_self] at h
      exact .inr ⟨rfl, Option.some.inj h⟩
    · rw [Mutation.apply, Function.update_of_ne he] at h
      exact .inl h
  | delete key' =>
    by_cases he : key = key'
    · subst he
      rw [Mutation.apply, Function.update_self] at h
      cases h
    · rw [Mutation.apply, Function.update_of_ne he] at h
      exact .inl h
  | clear => cases h
  | replace entries =>
    obtain ⟨entry, hfind, rfl⟩ := Option.map_eq_some_iff.mp h
    obtain rfl : entry.1 = key := by simpa using List.find?_some hfind
    exact .inr (List.mem_of_find?_eq_some hfind)

theorem writes_of_run {contents : Contents κ ν} {ms : List (Mutation κ ν)} {key : κ} {value : ν}
    (h : run contents ms key = some value) :
    contents key = some value ∨ ∃ m ∈ ms, m.writes key value := by
  induction ms generalizing contents with
  | nil => exact .inl h
  | cons m ms ih =>
    rcases ih h with h | ⟨m', hm', hwrites⟩
    · rcases Mutation.writes_of_apply h with h | h
      · exact .inl h
      · exact .inr ⟨m, List.mem_cons_self, h⟩
    · exact .inr ⟨m', List.mem_cons_of_mem _ hm', hwrites⟩

end KeyMaps
