import Minisqlite.Lib.Machine

/-!
# Computations in lockstep

`Agree R x y` says that two fallible computations fail with the same error, or
succeed with results that `R` relates. It composes along the way programs in
`Except` are built, so a simulation between two programs is a simulation between
their steps:

* `Agree.read`, `Agree.ite`: both ask the same question first.
* `Agree.read_left`, `Agree.read_right`: one of them asks, and is answered.
* `Agree.bind`, `Agree.mapError`: one step after the other.
* `Agree.with_left`, `Agree.with_right`: what is known of one of them alone.
* `Agree.foldlM`, `Agree.foldl`: a loop, from what one pass does.
-/

namespace Runs

universe u v w x

variable {ε : Type u} {α β : Type v}

/-- The same error, or results related by `R`. -/
inductive Agree (R : α → β → Prop) : Except ε α → Except ε β → Prop
  | ok {a : α} {b : β} (h : R a b) : Agree R (.ok a) (.ok b)
  | error (e : ε) : Agree R (.error e) (.error e)

namespace Agree

variable {R : α → β → Prop} {x : Except ε α} {y : Except ε β}

/-- Both programs start with the same computation. -/
theorem read {γ : Type v} {z : Except ε γ} {f : γ → Except ε α} {g : γ → Except ε β}
    (k : ∀ c, Agree R (f c) (g c)) : Agree R (z >>= f) (z >>= g) := by
  cases z with
  | error e => exact .error e
  | ok c => exact k c

/-- The first one alone starts with a computation that succeeds. -/
theorem read_left {γ : Type v} {z : Except ε γ} {c : γ} {f : γ → Except ε α} (hz : z = .ok c)
    (h : Agree R (f c) y) : Agree R (z >>= f) y := by
  rw [hz]
  exact h

theorem read_right {γ : Type v} {z : Except ε γ} {c : γ} {g : γ → Except ε β} (hz : z = .ok c)
    (h : Agree R x (g c)) : Agree R x (z >>= g) := by
  rw [hz]
  exact h

theorem bind {α' β' : Type v} {S : α' → β' → Prop} {f : α → Except ε α'} {g : β → Except ε β'}
    (h : Agree R x y) (k : ∀ a b, R a b → Agree S (f a) (g b)) : Agree S (x >>= f) (y >>= g) := by
  cases h with
  | error e => exact .error e
  | ok hab => exact k _ _ hab

theorem mapError {ε' : Type w} (h : Agree R x y) (f : ε → ε') :
    Agree R (x.mapError f) (y.mapError f) := by
  cases h with
  | error e => exact .error (f e)
  | ok hab => exact .ok hab

/-- Both programs take the same branch. -/
theorem ite {c : Prop} [Decidable c] {x' : Except ε α} {y' : Except ε β} (hthen : Agree R x y)
    (helse : Agree R x' y') : Agree R (if c then x else x') (if c then y else y') := by
  split
  · exact hthen
  · exact helse

/-- What the first program guarantees by itself. -/
theorem with_left {P : α → Prop} (h : Agree R x y) (hx : ∀ a, x = .ok a → P a) :
    Agree (fun a b => R a b ∧ P a) x y := by
  cases h with
  | error e => exact .error e
  | ok hab => exact .ok ⟨hab, hx _ rfl⟩

/-- What the second one guarantees. -/
theorem with_right {P : β → Prop} (h : Agree R x y) (hy : ∀ b, y = .ok b → P b) :
    Agree (fun a b => R a b ∧ P b) x y := by
  cases h with
  | error e => exact .error e
  | ok hab => exact .ok ⟨hab, hy _ rfl⟩

theorem mono {S : α → β → Prop} (h : Agree R x y) (hRS : ∀ a b, R a b → S a b) : Agree S x y := by
  cases h with
  | error e => exact .error e
  | ok hab => exact .ok (hRS _ _ hab)

/-- Two loops over one list, whose bodies agree from related states. -/
theorem foldlM {ι : Type x} {f : α → ι → Except ε α} {g : β → ι → Except ε β}
    (step : ∀ a b i, R a b → Agree R (f a i) (g b i)) (xs : List ι) {a : α} {b : β} (h : R a b) :
    Agree R (xs.foldlM f a) (xs.foldlM g b) := by
  induction xs generalizing a b with
  | nil => exact .ok h
  | cons i xs ih =>
    rw [List.foldlM_cons, List.foldlM_cons]
    exact (step a b i h).bind fun a b hab => ih hab

/-- A loop that follows one that cannot fail. -/
theorem foldl {ι : Type x} {f : α → ι → Except ε α} {g : β → ι → β}
    (step : ∀ a b i, R a b → Agree R (f a i) (.ok (g b i))) (xs : List ι) {a : α} {b : β}
    (h : R a b) : Agree R (xs.foldlM f a) (.ok (xs.foldl g b)) := by
  induction xs generalizing a b with
  | nil => exact .ok h
  | cons i xs ih =>
    rw [List.foldlM_cons, List.foldl_cons]
    cases hfirst : f a i with
    | error e => exact absurd (hfirst ▸ step a b i h) (by rintro ⟨⟩)
    | ok next =>
      have hnext := step a b i h
      rw [hfirst] at hnext
      cases hnext with
      | ok hab => exact ih hab

end Agree

end Runs
