import Mathlib.Data.List.Induction
import Mathlib.Data.List.Basic

/-!
# Reading a growing log by pages

A reader of a log that only grows asks again and again for the items after those
it has. A page may be short, but it is the next items, and it is not empty while
there are any (`IsPage`). `Tailed log points seen` says that `seen` is what such
a reader has after it has read at the given points, each no earlier than the
one before.

* `Tailed.isPrefix`: what was seen is a prefix of the log.
* `Tailed.complete`: once the log has stopped, as many pages as it has items are
  enough to see all of it.
-/

namespace Paging

universe u

variable {α : Type u} {log : Nat → List α} {points : List Nat} {seen : List α}

/-- The next items after the first `n`, at least one if there is one. -/
structure IsPage (items : List α) (n : Nat) (page : List α) : Prop where
  isPrefix : page <+: items.drop n
  progress : n < items.length → page ≠ []

/-- `LIMIT m`. -/
theorem isPage_take {items : List α} {n m : Nat} (hm : 1 ≤ m) :
    IsPage items n ((items.drop n).take m) := by
  refine ⟨List.take_prefix _ _, fun hn hnil => ?_⟩
  rcases List.take_eq_nil_iff.mp hnil with hzero | hdrop
  · omega
  · have := List.drop_eq_nil_iff.mp hdrop
    omega

/-- No limit. -/
theorem isPage_drop {items : List α} {n : Nat} : IsPage items n (items.drop n) :=
  ⟨List.prefix_rfl, fun hn hnil => by
    have := List.drop_eq_nil_iff.mp hnil
    omega⟩

/-- A reader that has a prefix has a longer one after the page. -/
theorem IsPage.append {items page : List α} (h : IsPage items seen.length page)
    (hseen : seen <+: items) : seen ++ page <+: items := by
  obtain ⟨rest, rfl⟩ := hseen
  have := h.isPrefix
  rw [List.drop_left] at this
  exact (List.prefix_append_right_inj seen).mpr this

/-- What a reader has seen after reading at these points. -/
inductive Tailed (log : Nat → List α) : List Nat → List α → Prop
  | start : Tailed log [] []
  | read {points : List Nat} {seen page : List α} {k : Nat} (h : Tailed log points seen)
      (later : ∀ p ∈ points, p ≤ k) (isPage : IsPage (log k) seen.length page) :
      Tailed log (points ++ [k]) (seen ++ page)

namespace Tailed

/-- The reader has a prefix of the log, from its last point on. -/
theorem isPrefix (grows : ∀ i k, i ≤ k → log i <+: log k) (h : Tailed log points seen) :
    ∀ {k : Nat}, (∀ p ∈ points, p ≤ k) → seen <+: log k := by
  induction h with
  | start => exact fun _ => List.nil_prefix
  | read _ later isPage ih =>
    intro k hk
    exact (isPage.append (ih later)).trans (grows _ _ (hk _ (by simp)))

/-- The pages that are read after the log has stopped. -/
theorem progress {more : List Nat} {items : List α}
    (h : Tailed log (points ++ more) seen) (stopped : ∀ p ∈ more, log p = items) :
    items.length ≤ seen.length ∨ more.length ≤ seen.length := by
  induction more using List.reverseRecOn generalizing seen with
  | nil => exact .inr (Nat.zero_le _)
  | append_singleton more k ih =>
    rw [← List.append_assoc] at h
    generalize hpoints : points ++ more ++ [k] = all at h
    cases h with
    | start => simp at hpoints
    | @read before seen page k' h later isPage =>
      obtain ⟨rfl, hk⟩ := List.append_inj' hpoints rfl
      obtain rfl : k = k' := by simpa using hk
      have hitems : log k = items := stopped k (by simp)
      rw [hitems] at isPage
      rw [List.length_append, List.length_append, List.length_singleton]
      by_cases hall : items.length ≤ seen.length
      · exact .inl (by omega)
      · have hpos := List.length_pos_iff.mpr (isPage.progress (Nat.lt_of_not_le hall))
        rcases ih h fun p hp => stopped p (by simp [hp]) with hdone | hmore
        · exact .inl (by omega)
        · exact .inr (by omega)

/-- Once the log has stopped, as many pages as it has items show all of it. -/
theorem complete (grows : ∀ i k, i ≤ k → log i <+: log k) {more : List Nat} {k : Nat}
    (h : Tailed log (points ++ more) seen)
    (stopped : ∀ p, k ≤ p → log p = log k) (hmore : ∀ p ∈ more, k ≤ p)
    (enough : (log k).length ≤ more.length) : seen = log k := by
  -- All the points together are before some later one, where the log is the same.
  obtain ⟨top, htop⟩ : ∃ top, ∀ p ∈ points ++ more, p ≤ top :=
    ⟨(points ++ more).max?.getD 0, fun p hp => List.le_max?_getD_of_mem hp⟩
  have hpre : seen <+: log k := by
    rw [← stopped (max k top) (Nat.le_max_left _ _)]
    exact h.isPrefix grows fun p hp => Nat.le_trans (htop p hp) (Nat.le_max_right _ _)
  have hlength := h.progress fun p hp => stopped p (hmore p hp)
  exact hpre.eq_of_length_le (by omega)

end Tailed

end Paging
