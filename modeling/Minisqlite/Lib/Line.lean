import Mathlib.Order.Lattice

/-!
# Waiting lines

A store keeps many lines at once. Its elements have a line (`key`) and a place
in it (`rank`); an element is `active` until it has left, and `fresh` as long as
nothing has been done to it. `HeadOnly` is the discipline that work on a line
starts with its first active element and with no other.

* `HeadOnly.isHead`: an element that has been started is the head of its line.
* `HeadOnly.step`: a step keeps the discipline if it starts only heads, moves
  nobody, and lets nobody in except at the end.
-/

namespace Lines

universe u v w

/-- How the elements of a store queue up. -/
structure Discipline (ρ : Type u) (κ : Type v) (τ : Type w) where
  key : ρ → κ
  rank : ρ → τ
  active : ρ → Prop
  fresh : ρ → Prop

variable {ρ : Type u} {κ : Type v} {τ : Type w} [LinearOrder τ] {D : Discipline ρ κ τ}
  {rows rows' : List ρ}

/-- Everyone behind another active element is fresh. -/
def HeadOnly (D : Discipline ρ κ τ) (rows : List ρ) : Prop :=
  ∀ a ∈ rows, ∀ b ∈ rows, D.key a = D.key b → D.active a → D.active b → D.rank a < D.rank b →
    D.fresh b

/-- The first active element of its line. -/
def IsHead (D : Discipline ρ κ τ) (rows : List ρ) (r : ρ) : Prop :=
  ∀ a ∈ rows, D.key a = D.key r → D.active a → D.rank r ≤ D.rank a

theorem HeadOnly.isHead (h : HeadOnly D rows) {r : ρ} (hr : r ∈ rows) (hactive : D.active r)
    (hstarted : ¬ D.fresh r) : IsHead D rows r := by
  intro a ha hkey haa
  by_contra hlt
  exact hstarted (h a ha r hr hkey haa hactive (not_le.mp hlt))

/-- Two started elements of a line have the same place. -/
theorem HeadOnly.rank_eq (h : HeadOnly D rows) {a b : ρ} (ha : a ∈ rows) (hb : b ∈ rows)
    (hkey : D.key a = D.key b) (haa : D.active a) (hba : D.active b) (has : ¬ D.fresh a)
    (hbs : ¬ D.fresh b) : D.rank a = D.rank b :=
  le_antisymm (h.isHead ha haa has b hb hkey.symm hba) (h.isHead hb hba hbs a ha hkey haa)

/-- One step. Every started element was started before or was a head, and every
element was there before or has joined at the end. -/
theorem HeadOnly.step (h : HeadOnly D rows)
    (started : ∀ b' ∈ rows', D.active b' → ¬ D.fresh b' → ∃ b ∈ rows, D.key b = D.key b' ∧
      D.rank b = D.rank b' ∧ D.active b ∧ (¬ D.fresh b ∨ IsHead D rows b))
    (joined : ∀ a' ∈ rows', D.active a' →
      (∃ a ∈ rows, D.key a = D.key a' ∧ D.rank a = D.rank a' ∧ D.active a) ∨
      ∀ b ∈ rows, D.rank b < D.rank a') : HeadOnly D rows' := by
  intro a' ha' b' hb' hkey haa hba hlt
  by_contra hfresh
  obtain ⟨b, hb, hkb, hrb, hbact, hstart⟩ := started b' hb' hba hfresh
  have hhead : IsHead D rows b := hstart.elim (h.isHead hb hbact) id
  rcases joined a' ha' haa with ⟨a, ha, hka, hra, haact⟩ | hlast
  · refine absurd (hhead a ha ?_ haact) (not_le.mpr ?_)
    · rw [hka, hkb, hkey]
    · rw [hra, hrb]
      exact hlt
  · refine absurd (hlast b hb) (not_lt.mpr ?_)
    rw [hrb]
    exact le_of_lt hlt

end Lines
