import Mathlib.Data.List.Basic
import Mathlib.Data.List.TakeWhile

/-!
# Round-robin rounds

A server visits its clients in the order of their keys, from a cursor on and
around: those after the cursor first, then those up to it. It serves the ready
ones until its budget is spent, and moves the cursor to the last client served.

`Before cursor q p` says that `q` is visited before `p` in a round that starts
at the cursor. It does not ask whether the clients exist, or whether the cursor
is a client, so it makes sense across rounds whose clients differ.

* `rotate_before`, `round_before`: the order in which a round visits its clients, for
  two ways to go around; `round_unique`: there is only one.
* `served_before`, `last_served`: a ready client that is not served has all that
  are served before it.
* `Before.advance`: such a round brings it closer to the front.
-/

namespace RoundRobin

universe u v

section Order

variable {κ : Type u} [LE κ] [LT κ]

/-- The round comes to this key only after it has wrapped around. -/
def Passed {κ : Type u} [LE κ] (cursor : Option κ) (key : κ) : Prop :=
  ∃ c, cursor = some c ∧ key ≤ c

/-- A round from the cursor comes to `q` before it comes to `p`. -/
def Before (cursor : Option κ) (q p : κ) : Prop :=
  ¬ Passed cursor q ∧ Passed cursor p ∨ (Passed cursor q ↔ Passed cursor p) ∧ q < p

variable [Std.IsLinearOrder κ] [Std.LawfulOrderLT κ]

theorem Before.asymm {cursor : Option κ} {q p : κ} (h : Before cursor q p) :
    ¬ Before cursor p q := by
  unfold Before at *
  grind

/-- A round that serves `last` as the last one, and does not come to `q`, brings
`q` before all that were before `q`, and before all that it has served. -/
theorem Before.advance {cursor : Option κ} {last q p : κ} (hlast : Before cursor last q)
    (h : Before cursor q p ∨ p = last ∨ Before cursor p last) : Before (some last) q p := by
  unfold Before Passed at *
  cases cursor with
  | none => grind
  | some c => grind

/-- The keys up to the cursor are a prefix of the sorted keys; a round visits the
rest first. -/
theorem rotate_before {α : Type v} {key : α → κ} {clients : List α} (cursor : Option κ)
    (passed : α → Bool) (sorted : clients.Pairwise fun a b => key a < key b)
    (hpassed : ∀ a, passed a = true ↔ Passed cursor (key a)) :
    (clients.drop (clients.takeWhile passed).length ++
      clients.take (clients.takeWhile passed).length).Pairwise
      fun a b => Before cursor (key a) (key b) := by
  obtain ⟨front, back, hsplit, hfront, hback⟩ : ∃ front back, clients = front ++ back ∧
      clients.takeWhile passed = front ∧ clients.dropWhile passed = back :=
    ⟨_, _, List.takeWhile_append_dropWhile.symm, rfl, rfl⟩
  have hin : ∀ a ∈ front, Passed cursor (key a) := fun a ha => by
    rw [← hfront] at ha
    exact (hpassed a).mp (List.mem_takeWhile_imp ha)
  have hfirst := List.head?_dropWhile_not passed clients
  rw [hback] at hfirst
  rw [hfront, hsplit, List.drop_left, List.take_left]
  rw [hsplit] at sorted
  obtain ⟨hfrontSorted, hbackSorted, -⟩ := List.pairwise_append.mp sorted
  -- The first key behind the prefix is past the cursor, and the others are larger.
  have hout : ∀ a ∈ back, ¬ Passed cursor (key a) := by
    cases back with
    | nil => simp
    | cons b back =>
      have hb : ¬ Passed cursor (key b) := by
        rw [← hpassed]
        simpa using hfirst
      intro a ha
      rcases List.mem_cons.mp ha with rfl | ha
      · exact hb
      · rintro ⟨c, hc, hac⟩
        have hlt := (List.pairwise_cons.mp hbackSorted).1 a ha
        exact hb ⟨c, hc, Std.le_trans (Std.le_of_lt hlt) hac⟩
  refine List.pairwise_append.mpr ⟨hbackSorted.imp_of_mem fun ha hb h => ?_,
    hfrontSorted.imp_of_mem fun ha hb h => ?_, fun a ha b hb => .inl ⟨hout a ha, hin b hb⟩⟩
  · exact .inr ⟨iff_of_false (hout _ ha) (hout _ hb), h⟩
  · exact .inr ⟨iff_of_true (hin _ ha) (hin _ hb), h⟩

omit [Std.IsLinearOrder κ] [Std.LawfulOrderLT κ] in
/-- The same round, of the clients past the cursor and then of those up to it. -/
theorem round_before {α : Type v} {key : α → κ} {clients : List α} (cursor : Option κ)
    (passed : α → Bool) (sorted : clients.Pairwise fun a b => key a < key b)
    (hpassed : ∀ a, passed a = true ↔ Passed cursor (key a)) :
    (clients.filter (fun a => !passed a) ++ clients.filter passed).Pairwise
      fun a b => Before cursor (key a) (key b) := by
  have hin : ∀ a ∈ clients.filter passed, Passed cursor (key a) := fun a ha =>
    (hpassed a).mp (List.mem_filter.mp ha).2
  have hout : ∀ a ∈ clients.filter (fun a => !passed a), ¬ Passed cursor (key a) := fun a ha => by
    rw [← hpassed]
    simpa using (List.mem_filter.mp ha).2
  refine List.pairwise_append.mpr ⟨(sorted.filter _).imp_of_mem fun ha hb h => ?_,
    (sorted.filter _).imp_of_mem fun ha hb h => ?_, fun a ha b hb => .inl ⟨hout a ha, hin b hb⟩⟩
  · exact .inr ⟨iff_of_false (hout _ ha) (hout _ hb), h⟩
  · exact .inr ⟨iff_of_true (hin _ ha) (hin _ hb), h⟩

/-- A round has one order. -/
theorem round_unique {α : Type v} {key : α → κ} {cursor : Option κ} {xs ys : List α}
    (hxs : xs.Pairwise fun a b => Before cursor (key a) (key b))
    (hys : ys.Pairwise fun a b => Before cursor (key a) (key b)) (h : xs.Perm ys) : xs = ys :=
  h.eq_of_pairwise (fun _ _ _ _ hab hba => absurd hba hab.asymm) hxs hys

end Order

/-! ## Service -/

section Service

variable {α : Type v} {R : α → α → Prop} {visited : List α} {ready : α → Bool} {budget : Nat}

/-- Who is ready and not served comes after all that are served. -/
theorem served_before (order : visited.Pairwise R) {q : α} (hq : q ∈ visited)
    (hready : ready q = true) (hnot : q ∉ (visited.filter ready).take budget) :
    ∀ p ∈ (visited.filter ready).take budget, R p q := by
  intro p hp
  have hmem : q ∈ (visited.filter ready).drop budget := by
    have := List.mem_filter.mpr ⟨hq, hready⟩
    rw [← List.take_append_drop budget (visited.filter ready)] at this
    exact (List.mem_append.mp this).resolve_left hnot
  have hsorted := order.filter ready
  rw [← List.take_append_drop budget (visited.filter ready)] at hsorted
  exact (List.pairwise_append.mp hsorted).2.2 p hp q hmem

/-- All that are served come before the last one. -/
theorem last_served (order : visited.Pairwise R) {last : α}
    (hlast : ((visited.filter ready).take budget).getLast? = some last) :
    ∀ p ∈ (visited.filter ready).take budget, p = last ∨ R p last := by
  intro p hp
  have hsorted := (order.filter ready).sublist (List.take_sublist budget _)
  obtain ⟨front, hfront⟩ := List.getLast?_eq_some_iff.mp hlast
  rw [hfront] at hsorted hp
  rcases List.mem_append.mp hp with hp | hp
  · exact .inr ((List.pairwise_append.mp hsorted).2.2 p hp last (List.mem_singleton_self _))
  · exact .inl (List.mem_singleton.mp hp)

end Service

end RoundRobin
