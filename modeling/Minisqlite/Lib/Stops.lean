import Mathlib.Data.List.Basic

/-!
# Programs that stop

A program over a state that may stop at any of its steps, with an error, and leaves
behind the state that it has got to. `Triple P prog Q E` says what becomes of a
start in `P`: the program ends with a result and a state in `Q`, or it stops with an
error and a state in `E`. So `E` is what holds after a crash at any point.

* `exec`: the program as a function, with an equation for each primitive.
* `Triple.bind`, `Triple.conseq`: the rules of composition.
* `Triple.forM`, `Triple.forM_append`: a loop, by an invariant on the elements that have
  been passed, or in two parts.
-/

namespace Stops

universe u v

variable {ε σ α β : Type u}

/-- The program, started in `s`. -/
def exec (prog : ExceptT ε (StateM σ) α) (s : σ) : Except ε α × σ := prog.run.run s

section Exec

variable (s : σ)

@[simp] theorem exec_pure (a : α) :
    exec (pure a : ExceptT ε (StateM σ) α) s = (.ok a, s) := rfl

@[simp] theorem exec_throw (e : ε) :
    exec (throw e : ExceptT ε (StateM σ) α) s = (.error e, s) := rfl

@[simp] theorem exec_get : exec (get : ExceptT ε (StateM σ) σ) s = (.ok s, s) := rfl

@[simp] theorem exec_modify (f : σ → σ) :
    exec (modify f : ExceptT ε (StateM σ) PUnit) s = (.ok ⟨⟩, f s) := rfl

@[simp] theorem exec_ofExcept (x : Except ε α) :
    exec (MonadExcept.ofExcept x : ExceptT ε (StateM σ) α) s = (x, s) := by
  cases x <;> rfl

@[simp] theorem exec_bind (prog : ExceptT ε (StateM σ) α) (f : α → ExceptT ε (StateM σ) β) :
    exec (prog >>= f) s = match exec prog s with
      | (.ok a, t) => exec (f a) t
      | (.error e, t) => (.error e, t) := by
  show (ExceptT.bindCont f (prog.run.run s).1).run (prog.run.run s).2 = _
  unfold exec
  rcases prog.run.run s with ⟨e | a, t⟩ <;> rfl

@[simp] theorem exec_map (f : α → β) (prog : ExceptT ε (StateM σ) α) :
    exec (f <$> prog) s = ((exec prog s).1.map f, (exec prog s).2) := by
  rw [map_eq_pure_bind, exec_bind]
  rcases exec prog s with ⟨e | a, t⟩ <;> rfl

end Exec

/-- The result and the state meet `Q`, or the error and the state meet `E`. -/
def Ends (Q : α → σ → Prop) (E : ε → σ → Prop) : Except ε α × σ → Prop
  | (.ok a, t) => Q a t
  | (.error e, t) => E e t

/-- Partial correctness with a condition for the stops. -/
def Triple (P : σ → Prop) (prog : ExceptT ε (StateM σ) α) (Q : α → σ → Prop) (E : ε → σ → Prop) :
    Prop :=
  ∀ s, P s → Ends Q E (exec prog s)

theorem Ends.mono {Q Q' : α → σ → Prop} {E E' : ε → σ → Prop} {out : Except ε α × σ}
    (h : Ends Q E out) (hQ : ∀ a t, Q a t → Q' a t) (hE : ∀ e t, E e t → E' e t) :
    Ends Q' E' out := by
  rcases out with ⟨e | a, t⟩
  · exact hE e t h
  · exact hQ a t h

/-- What holds after either end. -/
theorem Ends.state {P : σ → Prop} {out : Except ε α × σ} (h : Ends (fun _ => P) (fun _ => P) out) :
    P out.2 := by
  rcases out with ⟨e | a, t⟩ <;> exact h

namespace Triple

variable {P P' : σ → Prop} {prog : ExceptT ε (StateM σ) α} {Q Q' : α → σ → Prop}
  {E E' : ε → σ → Prop}

theorem conseq (h : Triple P prog Q E) (hP : ∀ s, P' s → P s) (hQ : ∀ a s, Q a s → Q' a s)
    (hE : ∀ e s, E e s → E' e s) : Triple P' prog Q' E' :=
  fun s hs => (h s (hP s hs)).mono hQ hE

theorem bind {f : α → ExceptT ε (StateM σ) β} {R : β → σ → Prop} (h : Triple P prog Q E)
    (hf : ∀ a, Triple (Q a) (f a) R E) : Triple P (prog >>= f) R E := by
  intro s hs
  have hprog := h s hs
  rw [exec_bind]
  generalize exec prog s = out at hprog
  rcases out with ⟨e | a, t⟩
  · exact hprog
  · exact hf _ t hprog

/-- A result that has been computed. -/
theorem ofExcept (x : Except ε α) :
    Triple P (MonadExcept.ofExcept x) (fun a s => x = .ok a ∧ P s)
      fun e s => x = .error e ∧ P s := by
  intro s hs
  rw [exec_ofExcept]
  cases x with
  | error e => exact ⟨rfl, hs⟩
  | ok a => exact ⟨rfl, hs⟩

/-- A loop keeps an invariant on the elements passed. -/
theorem forM {γ : Type v} {f : γ → ExceptT ε (StateM σ) PUnit} {xs : List γ}
    (inv : List γ → σ → Prop)
    (step : ∀ pre x post, xs = pre ++ x :: post →
      Triple (inv pre) (f x) (fun _ => inv (pre ++ [x])) E) :
    Triple (inv []) (xs.forM f) (fun _ => inv xs) E := by
  -- By induction on what is left; the elements passed are a parameter.
  have hrest : ∀ post pre, xs = pre ++ post →
      Triple (inv pre) (post.forM f) (fun _ => inv xs) E := by
    intro post
    induction post with
    | nil =>
      rintro pre rfl
      rw [List.append_nil]
      exact fun _ h => h
    | cons x post ih =>
      intro pre hxs
      exact (step pre x post hxs).bind fun _ => ih (pre ++ [x]) (by simp [hxs])
  exact hrest xs [] rfl

/-- A loop in two parts. -/
theorem forM_append {γ : Type v} {f : γ → ExceptT ε (StateM σ) PUnit} {xs ys : List γ}
    {R : σ → Prop} {Q : PUnit → σ → Prop} (hxs : Triple P (xs.forM f) (fun _ => R) E)
    (hys : Triple R (ys.forM f) Q E) : Triple P ((xs ++ ys).forM f) Q E := by
  have happend : (xs ++ ys).forM f = xs.forM f >>= fun _ => ys.forM f := List.forM_append
  rw [happend]
  exact hxs.bind fun _ => hys

end Triple

end Stops
