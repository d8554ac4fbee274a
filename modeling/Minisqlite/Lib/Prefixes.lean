import Mathlib.Data.List.Basic

/-!
# The strings that begin with a prefix

In lexicographic order the strings that begin with a prefix are an interval. It
starts with the prefix itself, and ends below `upper`: the prefix without its
trailing greatest letters, with the last letter left replaced by the next one. A
prefix of greatest letters has no end.

* `isPrefix_iff`: the interval.
* `upper_least`: its end is the least string above all of it.
* `upper_eq_none`: there is no end exactly if no string is above all of it.
-/

namespace Prefixes

universe u

/-- An alphabet with a greatest letter, in which every other one has a next. -/
structure Alphabet (α : Type u) [LE α] [LT α] where
  top : α
  next : α → α
  le_top : ∀ a, a ≤ top
  next_le : ∀ a b, a ≠ top → (next a ≤ b ↔ a < b)

variable {α : Type u} [LE α] [LT α]

/-- The string is above everything that begins with the prefix. -/
def Above (p v : List α) : Prop := ∀ k, p <+: k → k < v

section Order

variable [Std.LawfulOrderLT α] {p k v w : List α} {a b : α}

/-- Above a prefix is above its rest, if the first letters agree. -/
theorem above_cons : Above (a :: p) (a :: v) ↔ Above p v := by
  constructor
  · intro h k hk
    have hlt := List.cons_lt_cons_iff.mp (h (a :: k) (List.cons_prefix_cons.mpr ⟨rfl, hk⟩))
    exact (hlt.resolve_left Std.lt_irrefl).2
  · intro h k hk
    obtain ⟨rest, rfl⟩ := hk
    exact List.cons_lt_cons_iff.mpr (.inr ⟨rfl, h _ (List.prefix_append p rest)⟩)

/-- A string above a prefix has a greater first letter, or the same one. -/
theorem above_cases (h : Above (a :: p) v) :
    ∃ c w, v = c :: w ∧ (a < c ∨ c = a ∧ Above p w) := by
  have hself := h (a :: p) List.prefix_rfl
  cases v with
  | nil => exact absurd hself (List.not_lt_nil _)
  | cons c w =>
    rcases List.cons_lt_cons_iff.mp hself with hlt | ⟨rfl, -⟩
    · exact ⟨c, w, rfl, .inl hlt⟩
    · exact ⟨a, w, rfl, .inr ⟨rfl, above_cons.mp h⟩⟩

end Order

/-! ## The end of the interval -/

variable [DecidableEq α] (A : Alphabet α)

/-- The end of the strings that begin with a prefix. -/
def upper : List α → Option (List α)
  | [] => none
  | a :: p =>
    match upper p with
    | some u => some (a :: u)
    | none => if a = A.top then none else some [A.next a]

variable [Std.IsLinearOrder α] [Std.LawfulOrderLT α] {A} {p k u v : List α} {a b : α}

theorem isPrefix_iff : p <+: k ↔ p ≤ k ∧ ∀ u, upper A p = some u → k < u := by
  induction p generalizing k with
  | nil => simp [upper]
  | cons a p ih =>
    cases k with
    | nil => simp
    | cons b k =>
      rw [List.cons_prefix_cons, List.cons_le_cons_iff, ih]
      simp only [upper]
      cases hu : upper A p with
      | some u =>
        simp only [Option.some.injEq, forall_eq', List.cons_lt_cons_iff]
        constructor
        · rintro ⟨rfl, hle, hlt⟩
          exact ⟨.inr ⟨rfl, hle⟩, .inr ⟨rfl, hlt⟩⟩
        · rintro ⟨hlt | ⟨rfl, hle⟩, hgt | ⟨he, hlt'⟩⟩
          · exact absurd (Std.lt_trans hlt hgt) Std.lt_irrefl
          · exact absurd (he ▸ hlt) Std.lt_irrefl
          · exact absurd hgt Std.lt_irrefl
          · exact ⟨rfl, hle, hlt'⟩
      | none =>
        by_cases htop : a = A.top
        · have hnot : ¬ a < b := Std.not_lt.mpr (htop ▸ A.le_top b)
          simp [htop, htop ▸ hnot]
        · have hnext : b < A.next a ↔ ¬ a < b := by rw [← A.next_le a b htop, Std.not_le]
          simp only [if_neg htop, Option.some.injEq, forall_eq', List.cons_lt_cons_iff,
            List.not_lt_nil, and_false, or_false, hnext]
          constructor
          · rintro ⟨rfl, hle, -⟩
            exact ⟨.inr ⟨rfl, hle⟩, Std.lt_irrefl⟩
          · rintro ⟨hlt | ⟨rfl, hle⟩, hnot⟩
            · exact absurd hlt hnot
            · exact ⟨rfl, hle, nofun⟩

theorem not_above_of_none (h : upper A p = none) : ¬ Above p v := by
  induction p generalizing v with
  | nil => exact fun habove => absurd (habove v List.nil_prefix) (List.lt_irrefl v)
  | cons a p ih =>
    simp only [upper] at h
    cases hu : upper A p with
    | some u => simp [hu] at h
    | none =>
      have htop : a = A.top := by
        by_contra hne
        simp [hu, hne] at h
      intro habove
      obtain ⟨c, w, rfl, hlt | ⟨rfl, hrest⟩⟩ := above_cases habove
      · exact Std.not_lt.mpr (htop ▸ A.le_top c) hlt
      · exact ih hu hrest

theorem upper_above (h : upper A p = some u) : Above p u :=
  fun _ hk => (isPrefix_iff.mp hk).2 u h

theorem upper_least (h : upper A p = some u) (habove : Above p v) : u ≤ v := by
  induction p generalizing u v with
  | nil => cases h
  | cons a p ih =>
    simp only [upper] at h
    obtain ⟨c, w, rfl, hcases⟩ := above_cases habove
    cases hu : upper A p with
    | some u' =>
      obtain rfl : a :: u' = u := by simpa [hu] using h
      rw [List.cons_le_cons_iff]
      rcases hcases with hlt | ⟨rfl, hrest⟩
      · exact .inl hlt
      · exact .inr ⟨rfl, ih hu hrest⟩
    | none =>
      rcases hcases with hlt | ⟨rfl, hrest⟩
      · have htop : a ≠ A.top := fun he => Std.not_lt.mpr (he ▸ A.le_top c) hlt
        obtain rfl : [A.next a] = u := by simpa [hu, htop] using h
        rw [List.cons_le_cons_iff]
        by_cases hnext : A.next a = c
        · exact .inr ⟨hnext, List.nil_le w⟩
        · exact .inl (Std.lt_of_le_of_ne ((A.next_le a c htop).mpr hlt) hnext)
      · exact absurd hrest (not_above_of_none hu)

theorem upper_eq_none : upper A p = none ↔ ¬ ∃ v, Above p v := by
  constructor
  · rintro h ⟨v, habove⟩
    exact not_above_of_none h habove
  · intro h
    cases hu : upper A p with
    | none => rfl
    | some u => exact absurd ⟨u, upper_above hu⟩ h

end Prefixes
