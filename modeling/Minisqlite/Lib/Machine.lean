import Mathlib.Data.List.Induction
import Mathlib.Data.Nat.Init

/-!
# Runs of a state machine

A `Machine` answers one call at a time. A run is the list of its calls, a
point of a run is a number of calls already answered, and `stateAt` is the
state there. The rules below turn what one step does into what a run does:

* `stateAt_induction`: a property of the calls made so far and the state.
* `stateAt_rel`: a preorder that every step respects, between any two points.
* `stateAt_unless`: a property that a step can only end by `q` still holds
  later, or some call in between met `q`.
* `stateAt_since`: a property that a step can only bring about by `q` has held
  since a call that met `q`.
* `log`: the entries that the calls of a run append, with `log_induction`,
  `mem_log_take` and `log_split`.

For the loops inside a step, `foldlM_induction`, `foldlM_unless` and
`foldlM_view` are the same rules over a list processed in `Except`, and
`foldlM_total` says when such a loop does not fail. `exists_of_descent` is for a loop of
calls that is over when nothing is left to do.
-/

namespace Runs

universe u v w x

/-! ## Loops in `Except` -/

section Loops

variable {ε : Type u} {σ : Type v} {α : Type w} {κ ρ : Type x}

theorem bind_eq_ok {β : Type v} {x : Except ε σ} {f : σ → Except ε β} {b : β} :
    (x >>= f) = .ok b ↔ ∃ a, x = .ok a ∧ f a = .ok b := by
  cases x with
  | error e => exact ⟨nofun, nofun⟩
  | ok a =>
    constructor
    · exact fun h => ⟨a, rfl, h⟩
    · rintro ⟨_, ⟨⟩, h⟩
      exact h

theorem bind_ok {β : Type v} {x : Except ε σ} {f : σ → Except ε β} {b : β}
    (h : (x >>= f) = .ok b) : ∃ a, x = .ok a ∧ f a = .ok b :=
  bind_eq_ok.mp h

theorem bind_error {β : Type v} {x : Except ε σ} {f : σ → Except ε β} {e : ε}
    (h : (x >>= f) = .error e) : x = .error e ∨ ∃ a, x = .ok a ∧ f a = .error e := by
  cases x with
  | error e' => exact .inl (by cases h; rfl)
  | ok a => exact .inr ⟨a, rfl, h⟩

theorem mapError_eq_ok {ε' : Type w} {x : Except ε σ} {f : ε → ε'} {a : σ} :
    x.mapError f = .ok a ↔ x = .ok a := by
  cases x <;> simp [Except.mapError]

theorem foldlM_cons_ok {f : σ → α → Except ε σ} {s s' : σ} {a : α} {xs : List α}
    (h : (a :: xs).foldlM f s = .ok s') : ∃ t, f s a = .ok t ∧ xs.foldlM f t = .ok s' :=
  bind_ok (by simpa only [List.foldlM_cons] using h)

/-- The body fails on an element, so the loop fails with its error. -/
theorem foldlM_error {f : σ → α → Except ε σ} {s t : σ} {a : α} {e : ε} {xs ys : List α}
    (hxs : xs.foldlM f s = .ok t) (ha : f t a = .error e) :
    (xs ++ a :: ys).foldlM f s = .error e := by
  rw [List.foldlM_append, hxs]
  show (a :: ys).foldlM f t = .error e
  rw [List.foldlM_cons, ha]
  rfl

/-- A loop that fails has failed on an element, in the state that those before it
led to. -/
theorem foldlM_error_split {f : σ → α → Except ε σ} {s : σ} {e : ε} {xs : List α}
    (h : xs.foldlM f s = .error e) :
    ∃ pre a post t, xs = pre ++ a :: post ∧ pre.foldlM f s = .ok t ∧ f t a = .error e := by
  induction xs generalizing s with
  | nil => cases h
  | cons a xs ih =>
    rw [List.foldlM_cons] at h
    rcases bind_error h with h | ⟨t, ht, h⟩
    · exact ⟨[], a, xs, s, rfl, rfl, h⟩
    · obtain ⟨pre, b, post, u, rfl, hpre, hb⟩ := ih h
      exact ⟨a :: pre, b, post, u, rfl, by rw [List.foldlM_cons, ht]; exact hpre, hb⟩

theorem forM_ok {f : α → Except ε PUnit} {xs : List α} (h : xs.forM f = .ok ⟨⟩) :
    ∀ a ∈ xs, f a = .ok ⟨⟩ := by
  induction xs with
  | nil => simp
  | cons a xs ih =>
    have h : (f a >>= fun _ => xs.forM f) = .ok ⟨⟩ := h
    obtain ⟨⟨⟩, ha, hrest⟩ := bind_ok h
    intro b hb
    rcases List.mem_cons.mp hb with rfl | hb
    · exact ha
    · exact ih hrest b hb

/-- What every pass through a loop preserves, the loop preserves. A pass is known
by the elements before it and the state that they lead to. -/
theorem foldlM_passes {f : σ → α → Except ε σ} {P : σ → Prop} {xs : List α} {s s' : σ}
    (step : ∀ pre a post t u, xs = pre ++ a :: post → pre.foldlM f s = .ok t → f t a = .ok u →
      P t → P u)
    (h : xs.foldlM f s = .ok s') (hs : P s) : P s' := by
  induction xs using List.reverseRecOn generalizing s' with
  | nil => cases h; exact hs
  | append_singleton xs a ih =>
    rw [List.foldlM_append] at h
    obtain ⟨t, ht, hlast⟩ := bind_ok h
    obtain ⟨u, hu, hnil⟩ := foldlM_cons_ok hlast
    cases hnil
    refine step xs a [] t s' rfl ht hu (ih (fun pre b post t u hxs => ?_) ht)
    exact step pre b (post ++ [a]) t u (by simp [hxs])

/-- What the body of a loop preserves, the loop preserves. -/
theorem foldlM_induction {f : σ → α → Except ε σ} {P : σ → Prop} {xs : List α} {s s' : σ}
    (step : ∀ s t a, a ∈ xs → P s → f s a = .ok t → P t) (h : xs.foldlM f s = .ok s') (hs : P s) :
    P s' :=
  foldlM_passes (fun _ a _ t u hxs _ hu ht => step t u a (by simp [hxs]) ht hu) h hs

/-- A loop that succeeds has passed each of its elements, in a state with what
the body preserves. -/
theorem foldlM_mem {f : σ → α → Except ε σ} {P : σ → Prop} {xs : List α} {s s' : σ}
    (step : ∀ s t a, P s → f s a = .ok t → P t) (h : xs.foldlM f s = .ok s') (hs : P s) :
    ∀ a ∈ xs, ∃ t u, P t ∧ f t a = .ok u := by
  induction xs generalizing s with
  | nil => simp
  | cons a xs ih =>
    obtain ⟨t, ht, hrest⟩ := foldlM_cons_ok h
    intro b hb
    rcases List.mem_cons.mp hb with rfl | hb
    · exact ⟨s, t, hs, ht⟩
    · exact ih hrest (step s t a hs ht) b hb

/-- A loop whose body succeeds on the next element and keeps what that takes for
the elements after it. -/
theorem foldlM_total {f : σ → α → Except ε σ} {P : List α → σ → Prop} {xs : List α} {s : σ}
    (step : ∀ a xs s, P (a :: xs) s → ∃ t, f s a = .ok t ∧ P xs t) (hs : P xs s) :
    ∃ s', xs.foldlM f s = .ok s' ∧ P [] s' := by
  induction xs generalizing s with
  | nil => exact ⟨s, rfl, hs⟩
  | cons a xs ih =>
    obtain ⟨t, ht, hP⟩ := step a xs s hs
    obtain ⟨s', hs', hend⟩ := ih hP
    exact ⟨s', by rw [List.foldlM_cons, ht]; exact hs', hend⟩

/-- A property that the body can only end on an element with `q` holds after
the loop, or the list has such an element. -/
theorem foldlM_unless {f : σ → α → Except ε σ} {P : σ → Prop} {q : α → Prop} {xs : List α}
    {s s' : σ} (step : ∀ s t a, P s → f s a = .ok t → P t ∨ q a) (h : xs.foldlM f s = .ok s')
    (hs : P s) :
    P s' ∨ ∃ a ∈ xs, q a := by
  induction xs generalizing s with
  | nil => cases h; exact .inl hs
  | cons a xs ih =>
    obtain ⟨t, ht, hrest⟩ := foldlM_cons_ok h
    rcases step s t a hs ht with hp | hq
    · rcases ih hrest hp with hp' | ⟨b, hb, hq⟩
      · exact .inl hp'
      · exact .inr ⟨b, List.mem_cons_of_mem _ hb, hq⟩
    · exact .inr ⟨a, List.mem_cons_self, hq⟩

/-- A loop whose body appends the entries of its element to a list. -/
theorem foldlM_appends {f : σ → α → Except ε σ} (rows : σ → List ρ) (g : α → List ρ) {xs : List α}
    {s s' : σ} (step : ∀ s t a, a ∈ xs → f s a = .ok t → rows t = rows s ++ g a)
    (h : xs.foldlM f s = .ok s') : rows s' = rows s ++ xs.flatMap g := by
  induction xs generalizing s with
  | nil => cases h; simp
  | cons a xs ih =>
    obtain ⟨t, ht, hrest⟩ := foldlM_cons_ok h
    rw [ih (fun s t b hb => step s t b (List.mem_cons_of_mem _ hb)) hrest,
      step s t a List.mem_cons_self ht, List.append_assoc, List.flatMap_cons]

/-- A loop over elements with different keys, whose body changes only the view
of its element's key: afterwards each key has been changed by its own element,
and from the view that the loop started with. -/
theorem foldlM_view {f : σ → α → Except ε σ} (view : σ → κ → Option ρ) (key : α → κ)
    (G : α → Option ρ → Option ρ → Prop) {xs : List α} {s s' : σ}
    (step : ∀ s t a, a ∈ xs → f s a = .ok t →
      G a (view s (key a)) (view t (key a)) ∧ ∀ k, k ≠ key a → view t k = view s k)
    (nodup : (xs.map key).Nodup) (h : xs.foldlM f s = .ok s') :
    (∀ a ∈ xs, G a (view s (key a)) (view s' (key a))) ∧
    ∀ k, k ∉ xs.map key → view s' k = view s k := by
  induction xs generalizing s with
  | nil => cases h; exact ⟨by simp, fun _ _ => rfl⟩
  | cons a xs ih =>
    obtain ⟨t, ht, hrest⟩ := foldlM_cons_ok h
    obtain ⟨hself, hother⟩ := step s t a List.mem_cons_self ht
    rw [List.map_cons, List.nodup_cons] at nodup
    obtain ⟨hin, hout⟩ := ih (fun s t b hb => step s t b (List.mem_cons_of_mem _ hb)) nodup.2 hrest
    refine ⟨fun b hb => ?_, fun k hk => ?_⟩
    · rcases List.mem_cons.mp hb with rfl | hb
      · rw [hout _ nodup.1]; exact hself
      · have hne : key b ≠ key a := fun he => nodup.1 (he ▸ List.mem_map_of_mem hb)
        rw [← hother _ hne]; exact hin b hb
    · rw [List.map_cons, List.mem_cons, not_or] at hk
      rw [hout k hk.2, hother k hk.1]

/-- A process that is over, or goes on and comes closer to its end, is over after as
many steps as it had left. -/
theorem exists_of_descent (left : Nat → Nat) (ended goesOn : Nat → Prop)
    (step : ∀ n, n + left n ≤ left 0 → ended n ∨ goesOn n ∧ left (n + 1) < left n) :
    ∃ n, n + left n ≤ left 0 ∧ ended n ∧ ∀ i < n, goesOn i := by
  have hrun : ∀ k, (∃ n, n + left n ≤ left 0 ∧ ended n ∧ ∀ i < n, goesOn i) ∨
      k + left k ≤ left 0 ∧ ∀ i < k, goesOn i := by
    intro k
    induction k with
    | zero => exact .inr ⟨by omega, fun i hi => absurd hi (Nat.not_lt_zero i)⟩
    | succ k ih =>
      rcases ih with hover | ⟨hleft, hbefore⟩
      · exact .inl hover
      · rcases step k hleft with hover | ⟨hgoes, hless⟩
        · exact .inl ⟨k, hleft, hover, hbefore⟩
        · refine .inr ⟨by omega, fun i hi => ?_⟩
          rcases Nat.lt_succ_iff_lt_or_eq.mp hi with hi | rfl
          · exact hbefore i hi
          · exact hgoes
  exact (hrun (left 0 + 1)).resolve_right fun h => by omega

end Loops

/-! ## Machines and their runs -/

/-- A deterministic machine: the environment's choices are part of the call. -/
structure Machine (σ : Type u) (α : Type v) (β : Type w) where
  start : σ
  step : σ → α → σ × β

namespace Machine

variable {σ : Type u} {α : Type v} {β : Type w} {γ : Type x} (M : Machine σ α β)

/-- The state after one more call. -/
def next (s : σ) (a : α) : σ := (M.step s a).1

/-- The state after the calls `xs`. -/
def after (xs : List α) : σ := xs.foldl M.next M.start

/-- The state in which the first `k` calls of `xs` leave the machine. -/
def stateAt (xs : List α) (k : Nat) : σ := M.after (xs.take k)

/-- The answer to call number `k` of `xs`. -/
def replyAt (xs : List α) (k : Nat) : Option β := xs[k]?.map fun a => (M.step (M.stateAt xs k) a).2

/-- The states that some run ends in. -/
def Reachable (s : σ) : Prop := ∃ xs, M.after xs = s

@[simp] theorem after_append_singleton (xs : List α) (a : α) :
    M.after (xs ++ [a]) = M.next (M.after xs) a := by
  simp [after]

theorem stateAt_length (xs : List α) : M.stateAt xs xs.length = M.after xs := by simp [stateAt]

variable {M}

theorem take_succ_of_getElem? {xs : List α} {k : Nat} {a : α} (h : xs[k]? = some a) :
    xs.take (k + 1) = xs.take k ++ [a] := by
  rw [List.take_add_one, h]; rfl

theorem stateAt_succ {xs : List α} {k : Nat} {a : α} (h : xs[k]? = some a) :
    M.stateAt xs (k + 1) = M.next (M.stateAt xs k) a := by
  rw [stateAt, take_succ_of_getElem? h, after_append_singleton]; rfl

theorem stateAt_succ_of_ge {xs : List α} {k : Nat} (h : xs[k]? = none) :
    M.stateAt xs (k + 1) = M.stateAt xs k := by
  simp [stateAt, List.take_add_one, h]

/-- What comes later does not change an earlier point. -/
theorem stateAt_append_of_le (xs ys : List α) {k : Nat} (hk : k ≤ xs.length) :
    M.stateAt (xs ++ ys) k = M.stateAt xs k := by
  rw [stateAt, stateAt, List.take_append_of_le_length hk]

theorem stateAt_reachable (xs : List α) (k : Nat) : M.Reachable (M.stateAt xs k) := ⟨_, rfl⟩

/-- A property of the calls made and the state reached. -/
theorem after_induction {P : List α → σ → Prop} (start : P [] M.start)
    (step : ∀ xs a, P xs (M.after xs) → P (xs ++ [a]) (M.next (M.after xs) a)) (xs : List α) :
    P xs (M.after xs) := by
  induction xs using List.reverseRecOn with
  | nil => exact start
  | append_singleton xs a ih => rw [after_append_singleton]; exact step xs a ih

/-- What holds at the start and is preserved by a call holds at every point inside a run. -/
theorem stateAt_induction {P : List α → σ → Prop} (start : P [] M.start)
    (step : ∀ xs a, P xs (M.after xs) → P (xs ++ [a]) (M.next (M.after xs) a)) (xs : List α)
    (k : Nat) :
    P (xs.take k) (M.stateAt xs k) :=
  after_induction start step _

/-- Induction from one point of a run to a later one. -/
theorem stateAt_le_induction {xs : List α} {i : Nat} {P : Nat → σ → Prop}
    (base : P i (M.stateAt xs i))
    (step : ∀ m a, i ≤ m → xs[m]? = some a → P m (M.stateAt xs m) →
      P (m + 1) (M.next (M.stateAt xs m) a))
    {k : Nat} (hik : i ≤ k) (hk : k ≤ xs.length) : P k (M.stateAt xs k) := by
  induction k, hik using Nat.le_induction with
  | base => exact base
  | succ m him ih =>
    have hm : xs[m]? = some xs[m] := List.getElem?_eq_getElem hk
    rw [stateAt_succ hm]
    exact step m _ him hm (ih (Nat.le_of_lt hk))

/-- A preorder that every step respects relates a point to every later one. -/
theorem stateAt_rel {R : σ → σ → Prop} (refl : ∀ s, R s s) (trans : ∀ s t u, R s t → R t u → R s u)
    (step : ∀ s a, M.Reachable s → R s (M.next s a)) (xs : List α) {i k : Nat} (hik : i ≤ k) :
    R (M.stateAt xs i) (M.stateAt xs k) := by
  induction k, hik using Nat.le_induction with
  | base => exact refl _
  | succ m _ ih =>
    cases hm : xs[m]? with
    | none => rw [stateAt_succ_of_ge hm]; exact ih
    | some a =>
      rw [stateAt_succ hm]
      exact trans _ _ _ ih (step _ a (stateAt_reachable xs m))

/-- A property that holds at one point still holds at a later one, unless a
call in between met `q` in a state that had the property. -/
theorem stateAt_unless {xs : List α} {P : σ → Prop} {q : Nat → σ → α → Prop}
    (step : ∀ m a, xs[m]? = some a → P (M.stateAt xs m) →
      P (M.next (M.stateAt xs m) a) ∨ q m (M.stateAt xs m) a)
    {i k : Nat} (hik : i ≤ k) (hk : k ≤ xs.length) (hi : P (M.stateAt xs i)) :
    P (M.stateAt xs k) ∨
      ∃ m a, i ≤ m ∧ m < k ∧ xs[m]? = some a ∧ P (M.stateAt xs m) ∧ q m (M.stateAt xs m) a := by
  refine stateAt_le_induction (P := fun k s => P s ∨
    ∃ m a, i ≤ m ∧ m < k ∧ xs[m]? = some a ∧ P (M.stateAt xs m) ∧ q m (M.stateAt xs m) a)
    (.inl hi) ?_ hik hk
  intro m a him hm ih
  rcases ih with hP | ⟨n, b, hin, hnm, hn, hrest⟩
  · rcases step m a hm hP with hP' | hq
    · exact .inl hP'
    · exact .inr ⟨m, a, him, Nat.lt_succ_self m, hm, hP, hq⟩
  · exact .inr ⟨n, b, hin, Nat.lt_succ_of_lt hnm, hn, hrest⟩

/-- A property that does not hold at the start, and that a step can only bring about by
`q`, has held since some call that met `q`. -/
theorem stateAt_since {xs : List α} {P : σ → Prop} {q : Nat → σ → α → Prop} (start : ¬ P M.start)
    (step : ∀ m a, xs[m]? = some a → P (M.next (M.stateAt xs m) a) →
      P (M.stateAt xs m) ∨ q m (M.stateAt xs m) a)
    {k : Nat} (h : P (M.stateAt xs k)) :
    ∃ m a, m < k ∧ xs[m]? = some a ∧ q m (M.stateAt xs m) a ∧
      ∀ j, m < j → j ≤ k → P (M.stateAt xs j) := by
  -- The call is sought backwards from `k`.
  induction k with
  | zero => exact absurd h start
  | succ k ih =>
    have hlast : P (M.stateAt xs k) → ∃ m a, m < k + 1 ∧ xs[m]? = some a ∧
        q m (M.stateAt xs m) a ∧ ∀ j, m < j → j ≤ k + 1 → P (M.stateAt xs j) := fun hP => by
      obtain ⟨m, a, hmk, hm, hq, hsince⟩ := ih hP
      refine ⟨m, a, Nat.lt_succ_of_lt hmk, hm, hq, fun j hmj hj => ?_⟩
      rcases Nat.le_succ_iff.mp hj with hj | rfl
      · exact hsince j hmj hj
      · exact h
    cases hk : xs[k]? with
    | none => exact hlast (stateAt_succ_of_ge hk ▸ h)
    | some a =>
      rcases step k a hk (stateAt_succ hk ▸ h) with hP | hq
      · exact hlast hP
      · refine ⟨k, a, Nat.lt_succ_self k, hk, hq, fun j hkj hj => ?_⟩
        rwa [show j = k + 1 by omega]

/-! ## Logs -/

/-- What the calls `xs`, made from the state `s`, append to a log. -/
def logFrom (M : Machine σ α β) (emit : σ → α → List γ) : σ → List α → List γ
  | _, [] => []
  | s, a :: xs => emit s a ++ logFrom M emit (M.next s a) xs

/-- The log of a run. -/
def log (M : Machine σ α β) (emit : σ → α → List γ) (xs : List α) : List γ :=
  M.logFrom emit M.start xs

variable {emit : σ → α → List γ}

theorem logFrom_append (s : σ) (xs ys : List α) :
    M.logFrom emit s (xs ++ ys) = M.logFrom emit s xs ++ M.logFrom emit (xs.foldl M.next s) ys := by
  induction xs generalizing s with
  | nil => rfl
  | cons a xs ih => simp [logFrom, ih]

@[simp] theorem log_nil : M.log emit [] = [] := rfl

@[simp] theorem log_append_singleton (xs : List α) (a : α) :
    M.log emit (xs ++ [a]) = M.log emit xs ++ emit (M.after xs) a := by
  simp [log, logFrom_append, logFrom, after]

/-- The log before a call, what the call appended, and the rest. -/
theorem log_at {xs : List α} {k : Nat} {a : α} (h : xs[k]? = some a) :
    ∃ post, M.log emit xs = M.log emit (xs.take k) ++ emit (M.stateAt xs k) a ++ post := by
  refine ⟨M.logFrom emit (M.next (M.stateAt xs k) a) (xs.drop (k + 1)), ?_⟩
  obtain ⟨hlt, rfl⟩ := List.getElem?_eq_some_iff.mp h
  conv_lhs => rw [← List.take_append_drop k xs, List.drop_eq_getElem_cons hlt]
  rw [log, logFrom_append, List.append_assoc]
  rfl

/-- A property of the log and the state. -/
theorem log_induction {P : List γ → σ → Prop} (start : P [] M.start)
    (step : ∀ xs a, P (M.log emit xs) (M.after xs) →
      P (M.log emit xs ++ emit (M.after xs) a) (M.next (M.after xs) a)) (xs : List α) :
    P (M.log emit xs) (M.after xs) :=
  after_induction (P := fun xs s => P (M.log emit xs) s) start
    (fun xs a ih => by rw [log_append_singleton]; exact step xs a ih) xs

/-- An entry of the log was appended by one of the calls. -/
theorem mem_log {xs : List α} {e : γ} :
    e ∈ M.log emit xs ↔ ∃ k a, xs[k]? = some a ∧ e ∈ emit (M.stateAt xs k) a := by
  induction xs using List.reverseRecOn with
  | nil => simp
  | append_singleton xs a ih =>
    rw [log_append_singleton, List.mem_append, ih]
    have hstate : ∀ k ≤ xs.length, M.stateAt (xs ++ [a]) k = M.stateAt xs k :=
      fun _ hk => stateAt_append_of_le xs [a] hk
    constructor
    · rintro (⟨k, b, hk, he⟩ | he)
      · have hlt := (List.getElem?_eq_some_iff.mp hk).1
        refine ⟨k, b, ?_, ?_⟩
        · rw [List.getElem?_append_left hlt]; exact hk
        · rw [hstate k (Nat.le_of_lt hlt)]; exact he
      · refine ⟨xs.length, a, by simp, ?_⟩
        rw [hstate _ (Nat.le_refl _), stateAt_length]; exact he
    · rintro ⟨k, b, hk, he⟩
      rcases Nat.lt_trichotomy k xs.length with hlt | rfl | hgt
      · rw [List.getElem?_append_left hlt] at hk
        rw [hstate k (Nat.le_of_lt hlt)] at he
        exact .inl ⟨k, b, hk, he⟩
      · rw [List.getElem?_append_right (Nat.le_refl _)] at hk
        simp only [Nat.sub_self, List.getElem?_cons_zero, Option.some.injEq] at hk
        subst hk
        rw [hstate _ (Nat.le_refl _), stateAt_length] at he
        exact .inr he
      · rw [List.getElem?_eq_none (by simp; omega)] at hk
        cases hk

/-- What the first `k` calls of a run have logged. -/
theorem mem_log_take {xs : List α} {k : Nat} {e : γ} :
    e ∈ M.log emit (xs.take k) ↔ ∃ i < k, ∃ a, xs[i]? = some a ∧ e ∈ emit (M.stateAt xs i) a := by
  have hstate : ∀ i < k, M.stateAt (xs.take k) i = M.stateAt xs i := fun i hi => by
    simp [stateAt, List.take_take, Nat.min_eq_left (Nat.le_of_lt hi)]
  rw [mem_log]
  constructor
  · rintro ⟨i, a, hi, he⟩
    rw [List.getElem?_take] at hi
    split at hi
    · next hik => exact ⟨i, hik, a, hi, hstate i hik ▸ he⟩
    · cases hi
  · rintro ⟨i, hik, a, hi, he⟩
    exact ⟨i, a, by rw [List.getElem?_take, if_pos hik, hi], (hstate i hik).symm ▸ he⟩

/-- The call that appended an entry, and the entries before it. -/
theorem log_split {xs : List α} {pre post : List γ} {e : γ} (h : M.log emit xs = pre ++ e :: post) :
    ∃ k a p q, xs[k]? = some a ∧ emit (M.stateAt xs k) a = p ++ e :: q ∧
      pre = M.log emit (xs.take k) ++ p := by
  induction xs using List.reverseRecOn generalizing post with
  | nil => simp at h
  | append_singleton xs a ih =>
    have hlast : ∀ p q, emit (M.after xs) a = p ++ e :: q → pre = M.log emit xs ++ p →
        ∃ k b p q, (xs ++ [a])[k]? = some b ∧ emit (M.stateAt (xs ++ [a]) k) b = p ++ e :: q ∧
          pre = M.log emit ((xs ++ [a]).take k) ++ p := fun p q hemit hpre =>
      ⟨xs.length, a, p, q, by simp, by simpa [stateAt] using hemit, by simpa using hpre⟩
    rw [log_append_singleton] at h
    -- The entry comes from the last call, or it is in the log without it.
    rcases List.append_eq_append_iff.mp h with ⟨p, hpre, hemit⟩ | ⟨r, hlog, hemit⟩
    · exact hlast p post hemit hpre
    · cases r with
      | nil => exact hlast [] post (by simpa using hemit.symm) (by simpa using hlog.symm)
      | cons b r =>
        obtain ⟨rfl, rfl⟩ := List.cons.inj hemit
        obtain ⟨k, b, p, q, hk, hb, hpre⟩ := ih hlog
        have hlt := (List.getElem?_eq_some_iff.mp hk).1
        refine ⟨k, b, p, q, ?_, ?_, ?_⟩
        · rw [List.getElem?_append_left hlt]
          exact hk
        · rw [stateAt, List.take_append_of_le_length (Nat.le_of_lt hlt)]
          exact hb
        · rw [List.take_append_of_le_length (Nat.le_of_lt hlt)]
          exact hpre

end Machine

end Runs
