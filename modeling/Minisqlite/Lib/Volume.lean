import Mathlib.Logic.Function.Basic

/-!
# Names and files

A volume gives names to files, which are numbered. To unlink a name leaves the file to
whoever holds it open, and a name that is created again names another file. So a file
keeps its contents until somebody writes to it:

* `Same`: two volumes that differ at most under other names, with `Same.unlink`,
  `Same.create` and `Same.write` for what happens there.
* `Extends`: every file that has a name is still there.
-/

namespace Files

universe u v

/-- Every file with a name is one of the first `next`, which have been created. -/
structure Volume (ν : Type u) (κ : Type v) where
  named : ν → Option Nat
  content : Nat → κ
  next : Nat
  lt_next : ∀ {name file}, named name = some file → file < next

namespace Volume

section Files

variable {ν : Type u} {κ : Type v} (volume : Volume ν κ)

/-- The file gets other contents. -/
def write (file : Nat) (content : κ) : Volume ν κ :=
  { volume with content := Function.update volume.content file content }

@[simp] theorem content_write (file : Nat) (content : κ) :
    (volume.write file content).content file = content :=
  Function.update_self ..

/-- Under the names in `p`, both volumes have the same files with the same contents. -/
structure Same (p : ν → Prop) (volume volume' : Volume ν κ) : Prop where
  named : ∀ name, p name → volume'.named name = volume.named name
  content : ∀ name file, p name → volume.named name = some file →
    volume'.content file = volume.content file

/-- The files that have a name keep it, and their contents. -/
def Extends (volume volume' : Volume ν κ) : Prop :=
  Same (fun name => volume.named name ≠ none) volume volume'

namespace Same

variable {p : ν → Prop} {volume volume' volume'' : Volume ν κ}

theorem refl (p : ν → Prop) (volume : Volume ν κ) : Same p volume volume where
  named _ _ := rfl
  content _ _ _ _ := rfl

theorem trans (h : Same p volume volume') (h' : Same p volume' volume'') :
    Same p volume volume'' where
  named name hname := (h'.named name hname).trans (h.named name hname)
  content name file hname hfile :=
    (h'.content name file hname ((h.named name hname).trans hfile)).trans
      (h.content name file hname hfile)

/-- A file is written that has none of these names. -/
theorem write {file : Nat} (hfile : ∀ name, p name → volume.named name ≠ some file)
    (content : κ) : Same p volume (volume.write file content) where
  named _ _ := rfl
  content name other hname hother := by
    refine Function.update_of_ne (fun he => hfile name hname ?_) _ _
    rw [hother, he]

end Same

namespace Extends

variable {volume volume' volume'' : Volume ν κ} {name : ν} {file : Nat}

theorem refl (volume : Volume ν κ) : Extends volume volume := Same.refl _ volume

theorem named (h : Extends volume volume') (hname : volume.named name = some file) :
    volume'.named name = some file :=
  (Same.named h name (by rw [hname]; nofun)).trans hname

theorem content (h : Extends volume volume') (hname : volume.named name = some file) :
    volume'.content file = volume.content file :=
  Same.content h name file (by rw [hname]; nofun) hname

theorem trans (h : Extends volume volume') (h' : Extends volume' volume'') :
    Extends volume volume'' where
  named name hname := by
    obtain ⟨file, hfile⟩ := Option.ne_none_iff_exists'.mp hname
    rw [h'.named (h.named hfile), hfile]
  content name file _ hfile := (h'.content (h.named hfile)).trans (h.content hfile)

end Extends

end Files

section Names

variable {ν : Type u} {κ : Type v} [DecidableEq ν] (volume : Volume ν κ)

/-- The name is removed. -/
def unlink (name : ν) : Volume ν κ where
  named := Function.update volume.named name none
  content := volume.content
  next := volume.next
  lt_next := by
    intro other file h
    by_cases hname : other = name
    · rw [hname, Function.update_self] at h
      cases h
    · rw [Function.update_of_ne hname] at h
      exact volume.lt_next h

/-- A new file under this name. -/
def create (name : ν) (content : κ) : Volume ν κ where
  named := Function.update volume.named name (some volume.next)
  content := Function.update volume.content volume.next content
  next := volume.next + 1
  lt_next := by
    intro other file h
    by_cases hname : other = name
    · rw [hname, Function.update_self] at h
      cases h
      exact Nat.lt_succ_self _
    · rw [Function.update_of_ne hname] at h
      exact Nat.lt_succ_of_lt (volume.lt_next h)

/-- The file of the name, which is created if there is none. -/
def provide (name : ν) (content : κ) : Nat × Volume ν κ :=
  match volume.named name with
  | some file => (file, volume)
  | none => (volume.next, volume.create name content)

@[simp] theorem named_unlink (name : ν) : (volume.unlink name).named name = none :=
  Function.update_self ..

@[simp] theorem named_create (name : ν) (content : κ) :
    (volume.create name content).named name = some volume.next :=
  Function.update_self ..

@[simp] theorem content_create (name : ν) (content : κ) :
    (volume.create name content).content volume.next = content :=
  Function.update_self ..

variable {volume} {name : ν}

theorem named_unlink_of_ne {other : ν} (hother : other ≠ name) :
    (volume.unlink name).named other = volume.named other :=
  Function.update_of_ne hother _ _

theorem named_create_of_ne {other : ν} (hother : other ≠ name) (content : κ) :
    (volume.create name content).named other = volume.named other :=
  Function.update_of_ne hother _ _

theorem content_create_of_lt {file : Nat} (hfile : file < volume.next) (content : κ) :
    (volume.create name content).content file = volume.content file :=
  Function.update_of_ne (Nat.ne_of_lt hfile) _ _

/-- Another name is removed. -/
theorem Same.unlink {p : ν → Prop} (hname : ¬ p name) : Same p volume (volume.unlink name) where
  named other hother := named_unlink_of_ne (by rintro rfl; exact hname hother)
  content _ _ _ _ := rfl

/-- Another name is created. -/
theorem Same.create {p : ν → Prop} (hname : ¬ p name) (content : κ) :
    Same p volume (volume.create name content) where
  named other hother := named_create_of_ne (by rintro rfl; exact hname hother) content
  content _ _ _ hfile := content_create_of_lt (volume.lt_next hfile) content

theorem provide_named {file : Nat} (h : volume.named name = some file) (content : κ) :
    volume.provide name content = (file, volume) := by
  rw [provide, h]

theorem provide_free (h : volume.named name = none) (content : κ) :
    volume.provide name content = (volume.next, volume.create name content) := by
  rw [provide, h]

theorem provide_extends (name : ν) (content : κ) :
    Extends volume (volume.provide name content).2 := by
  cases h : volume.named name with
  | some file => rw [provide_named h]; exact .refl volume
  | none => rw [provide_free h]; exact Same.create (fun hne => hne h) content

theorem named_provide (name : ν) (content : κ) :
    (volume.provide name content).2.named name = some (volume.provide name content).1 := by
  cases h : volume.named name with
  | some file => rw [provide_named h]; exact h
  | none => rw [provide_free h]; exact named_create ..

theorem named_provide_of_ne {other : ν} (hother : other ≠ name) (content : κ) :
    (volume.provide name content).2.named other = volume.named other := by
  cases h : volume.named name with
  | some file => rw [provide_named h]
  | none => rw [provide_free h]; exact named_create_of_ne hother content

end Names

end Volume

end Files
