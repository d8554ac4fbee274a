import Minisqlite.Lib.Threads

/-!
# One call after the other

What the threads of a service get to see is what they would have got one call after the
other, in the order in which their calls took effect (`linearized`). A call that has had a
look outside of transactions must not be disturbed by other calls before it is over;
`undisturbed_of_handles` says that those of its own handle never do.
-/

namespace Threads

open Runs

namespace Service

universe u

variable {τ η ι σ κ β ε : Type u} [DecidableEq τ] [DecidableEq η] (S : Service τ η ι σ κ β ε)

/-! ## What is left of a call -/

/-- What is left of a call would give, of this state, what the whole of it would give. -/
def Agrees (request : ι) (program : Program σ κ β) (durable : σ) : Prop :=
  ∀ ending, program.atomic S.persists ending durable = S.atomic request ending durable

section Agrees

omit [DecidableEq τ] [DecidableEq η]

variable {S}

theorem Agrees.whole (request : ι) (durable : σ) :
    S.Agrees request (S.program request) durable := fun _ => rfl

theorem Agrees.look {request : ι} {next : σ → Program σ κ β} {durable : σ}
    (h : S.Agrees request (.look next) durable) : S.Agrees request (next durable) durable := h

theorem Agrees.transaction {request : ι} {body : Body σ κ β} {durable : σ}
    (h : S.Agrees request (.transaction body) durable) (ending : κ) :
    body.atomic S.persists ending durable durable = S.atomic request ending durable := h ending

end Agrees

structure Agreeing (s : State τ η ι σ κ β) : Prop where
  connected : ∀ t request program, s.threads t = .connected request program →
    S.Agrees request program s.durable
  inside : ∀ t request working body, s.threads t = .inside request working body →
    ∀ ending, body.atomic S.persists ending s.durable working = S.atomic request ending s.durable

/-- No transaction makes a look wrong that a call outside of transactions has had. -/
def Undisturbed (events : List (Event τ η ι κ ε)) : Prop :=
  ∀ k x working body, S.effectAt events k = some x →
    (S.machine.stateAt events k).threads x.thread = .inside x.request working body →
    ∀ t request program, (S.machine.stateAt events k).threads t = .connected request program →
      program ≠ S.program request →
      S.serial.Reachable (S.machine.stateAt events k).durable →
      S.Agrees request program (S.machine.stateAt events k).durable →
      S.Agrees request program
        (S.atomic x.request x.ending (S.machine.stateAt events k).durable).1

omit [DecidableEq τ] in
theorem interrupted_some {s : State τ η ι σ κ β} {h : η} {t : τ} {request : ι} {working : σ}
    (hi : S.interrupted s h = some (t, request, working)) :
    S.handle t = h ∧ ∃ answer, s.threads t = .inside request working (.commit answer) := by
  unfold interrupted at hi
  split at hi
  · cases hi
  · split at hi
    · next hhandle =>
      split at hi
      · next answer hinside =>
        cases hi
        exact ⟨hhandle, answer, hinside⟩
      · cases hi
    · cases hi

theorem durable_unchanged {s s' : State τ η ι σ κ β} {e : Event τ η ι κ ε}
    {r : Option (Response τ ι β)} (h : S.Moved s e s' none r) : s'.durable = s.durable := by
  generalize hx : (none : Option (Effect τ ι κ)) = x at h
  cases h with
  | crash h ending =>
    simp only [step, effect] at hx ⊢
    split
    · split at hx <;> simp_all
    · rfl
  | reply | looked | observe | drop | commit => cases hx
  | _ => simp

/-- What a step does to the database is what the call does that takes effect in it. -/
theorem durable_effect {s s' : State τ η ι σ κ β} {e : Event τ η ι κ ε} {x : Effect τ ι κ}
    {r : Option (Response τ ι β)} (h : S.Moved s e s' (some x) r) (hs : S.Agreeing s) :
    s'.durable = (S.atomic x.request x.ending s.durable).1 ∧
      (s'.threads x.thread = .idle ∨ s'.threads x.thread =
        .answered x.request (S.atomic x.request x.ending s.durable).2 true) := by
  generalize hx : some x = y at h
  cases h with
  | @reply t request answer _ _ hprogram =>
    cases hx
    simp [atomic, hprogram, Program.atomic]
  | @looked t request next answer hlook hnext =>
    cases hx
    have hagree := hs.connected _ _ _ hlook S.done
    rw [Program.atomic, hnext] at hagree
    simp [← hagree, Program.atomic]
  | @observe t request body answer hbody _ hreads =>
    cases hx
    have hagree := (hs.connected _ _ _ hbody).transaction S.done
    rw [Body.atomic_of_readOnly hreads rfl] at hagree
    simp [← hagree]
  | @drop t request working answer ending hdrop =>
    cases hx
    have hagree := hs.inside _ _ _ _ hdrop ending
    simp [← hagree, Body.atomic]
  | @commit t request working answer ending hcommit =>
    cases hx
    have hagree := hs.inside _ _ _ _ hcommit ending
    simp [← hagree, Body.atomic]
  | crash h ending =>
    simp only [step, effect] at hx ⊢
    cases hi : S.interrupted s h with
    | none => simp [hi] at hx
    | some found =>
      obtain ⟨t, request, working⟩ := found
      obtain ⟨hhandle, answer, hcommit⟩ := S.interrupted_some hi
      have hagree := hs.inside _ _ _ _ hcommit ending
      cases hpersists : S.persists ending with
      | false => simp [hi, hpersists] at hx
      | true =>
        simp only [hi, hpersists, if_true, Option.some.injEq] at hx
        subst hx
        simp [← hagree, Body.atomic, hpersists, hhandle]
  | _ => cases hx

/-- A call takes effect in its transaction, or it leaves the database alone. -/
theorem effect_cases {s s' : State τ η ι σ κ β} {e : Event τ η ι κ ε} {x : Effect τ ι κ}
    {r : Option (Response τ ι β)} (h : S.Moved s e s' (some x) r) :
    (∃ working body, s.threads x.thread = .inside x.request working body) ∨
      s'.durable = s.durable := by
  generalize hx : some x = y at h
  cases h with
  | reply | looked | observe => exact .inr (by simp)
  | drop ending hdrop => cases hx; exact .inl ⟨_, _, hdrop⟩
  | commit ending hcommit => cases hx; exact .inl ⟨_, _, hcommit⟩
  | crash h ending =>
    simp only [effect] at hx
    split at hx
    · next t request working hi =>
      obtain ⟨-, answer, hcommit⟩ := S.interrupted_some hi
      split at hx <;> cases hx
      exact .inl ⟨working, _, hcommit⟩
    · cases hx
  | _ => cases hx

/-- Only a call that is being made takes effect. -/
theorem pending_of_effect {s s' : State τ η ι σ κ β} {e : Event τ η ι κ ε} {x : Effect τ ι κ}
    {r : Option (Response τ ι β)} (h : S.Moved s e s' (some x) r) :
    (s.threads x.thread).pending = some x.request := by
  generalize hx : some x = y at h
  cases h with
  | reply hcalled => cases hx; rw [hcalled, Thread.pending]
  | looked hlook => cases hx; rw [hlook, Thread.pending]
  | observe hbody => cases hx; rw [hbody, Thread.pending]
  | drop ending hdrop => cases hx; rw [hdrop, Thread.pending]
  | commit ending hcommit => cases hx; rw [hcommit, Thread.pending]
  | crash h ending =>
    simp only [effect] at hx
    split at hx
    · next t request working hi =>
      obtain ⟨-, answer, hcommit⟩ := S.interrupted_some hi
      split at hx <;> cases hx
      rw [hcommit, Thread.pending]
    · cases hx
  | _ => cases hx

/-- The transaction of a handle that outlives a crash is the only one there is, so that the crash
leaves the database alone. -/
theorem inside_of_crash {s : State τ η ι σ κ β} {h : η} {ending : κ} (hguarded : S.Guarded s)
    {t : τ} {request : ι} {working : σ} {body : Body σ κ β}
    (hin : (S.step s (.crash h ending)).1.threads t = .inside request working body) :
    s.threads t = .inside request working body ∧
      (S.step s (.crash h ending)).1.durable = s.durable := by
  simp only [step] at hin ⊢
  split at hin
  · cases hin
  · next hother =>
    have hwriting := (hguarded.inside t request working body hin).1
    have hnone : S.interrupted s h = none := by
      simp [interrupted, hwriting, hother]
    rw [hnone]
    exact ⟨hin, rfl⟩

theorem agreeing_moved {s s' : State τ η ι σ κ β} {e : Event τ η ι κ ε}
    {x : Option (Effect τ ι κ)} {r : Option (Response τ ι β)} (h : S.Moved s e s' x r)
    (hguarded : S.Guarded s) (hs : S.Agreeing s)
    (undisturbed : ∀ t request program, s.threads t = .connected request program →
      s'.threads t = .connected request program → S.Agrees request program s'.durable) :
    S.Agreeing s' := by
  obtain ⟨hconnected, hinside⟩ := hs
  have hwriter := fun t request working body h => (hguarded.inside t request working body h).1
  cases h with
  | stutter => exact ⟨hconnected, hinside⟩
  | invoke hidle => constructor <;> simp only [move_threads, move_durable] <;> grind
  | acquire hcalled hfree hprogram =>
    constructor <;> simp only [lock_threads, lock_durable, move_threads, move_durable] <;>
      grind [Agrees.whole]
  | reply hcalled hfree hprogram =>
    constructor <;> simp only [lock_threads, lock_durable, move_threads, move_durable] <;> grind
  | look hlook hnext =>
    have hrest := (hconnected _ _ _ hlook).look
    constructor <;> simp only [move_threads, move_durable] <;> grind
  | looked hlook hnext => constructor <;> simp only [move_threads, move_durable] <;> grind
  | observe hbody => constructor <;> simp only [move_threads, move_durable] <;> grind
  | begin hbody hfree hwritable =>
    have hrest := (hconnected _ _ _ hbody).transaction
    constructor <;> simp only [move_threads, move_durable] <;> grind
  | query hquery =>
    have hrest := hinside _ _ _ _ hquery
    simp only [Body.atomic] at hrest
    constructor <;> simp only [move_threads, move_durable] <;> grind
  | write hwrite =>
    have hrest := hinside _ _ _ _ hwrite
    simp only [Body.atomic] at hrest
    constructor <;> simp only [move_threads, move_durable] <;> grind
  | drop _ hdrop => constructor <;> simp only [move_threads, move_durable] <;> grind
  | commit _ hcommit =>
    constructor
    · grind [move_threads]
    · simp only [move_threads]
      grind
  | refuseCalled _ hcalled => constructor <;> simp only [move_threads, move_durable] <;> grind
  | refuseConnected _ hconn => constructor <;> simp only [move_threads, move_durable] <;> grind
  | refuseInside _ hin => constructor <;> simp only [move_threads, move_durable] <;> grind
  | respond hanswered =>
    constructor <;> simp only [unlock_threads, unlock_durable, move_threads, move_durable] <;> grind
  | crash h ending =>
    constructor
    · intro t request program hconn
      have hbefore : s.threads t = .connected request program := by
        simp only [step] at hconn
        split at hconn
        · cases hconn
        · exact hconn
      exact undisturbed t request program hbefore hconn
    · intro t request working body hin
      obtain ⟨hbefore, hsame⟩ := S.inside_of_crash hguarded hin
      rw [hsame]
      exact hinside t request working body hbefore

theorem agreeing_start : S.Agreeing S.machine.start where
  connected _ _ _ h := nomatch h
  inside _ _ _ _ h := nomatch h

/-- The database and the calls in one induction: a look is only known to stay right in a
state that one call after the other can bring about. -/
theorem agreeing_reachable {events : List (Event τ η ι κ ε)} (h : S.Undisturbed events) (k : Nat) :
    S.Agreeing (S.machine.stateAt events k) ∧
      S.serial.Reachable (S.machine.stateAt events k).durable := by
  induction k with
  | zero => exact ⟨S.agreeing_start, [], rfl⟩
  | succ k ih =>
    cases hk : events[k]? with
    | none => rw [Machine.stateAt_succ_of_ge hk]; exact ih
    | some e =>
      obtain ⟨hagreeing, calls, hcalls⟩ := ih
      have hmoved := S.moved_next (S.machine.stateAt events k) e
      have heffect : S.effectAt events k = S.effect (S.machine.stateAt events k) e := by
        rw [effectAt, hk]; rfl
      rw [Machine.stateAt_succ hk]
      cases hx : S.effect (S.machine.stateAt events k) e with
      | none =>
        rw [hx] at hmoved
        have hsame := S.durable_unchanged hmoved
        rw [hsame]
        refine ⟨S.agreeing_moved hmoved (S.guarded_stateAt events k) hagreeing ?_, calls, hcalls⟩
        intro t request program hbefore _
        rw [hsame]
        exact hagreeing.connected t request program hbefore
      | some x =>
        rw [hx] at hmoved
        have hdurable := (S.durable_effect hmoved hagreeing).1
        refine ⟨S.agreeing_moved hmoved (S.guarded_stateAt events k) hagreeing ?_, calls ++ [x], ?_⟩
        · intro t request program hbefore _
          have hagrees := hagreeing.connected t request program hbefore
          rcases S.effect_cases hmoved with ⟨working, body, hinside⟩ | hsame
          · rw [hdurable]
            by_cases hwhole : program = S.program request
            · exact hwhole ▸ .whole request _
            · exact h k x working body (heffect.trans hx) hinside t request program hbefore hwhole
                ⟨calls, hcalls⟩ hagrees
          · rwa [hsame]
        · rw [Machine.after_append_singleton, hcalls, hdurable]
          rfl

theorem agreeing_stateAt {events : List (Event τ η ι κ ε)} (h : S.Undisturbed events) (k : Nat) :
    S.Agreeing (S.machine.stateAt events k) := (S.agreeing_reachable h k).1

/-- The database is what the calls make of it, one after the other. -/
theorem durable_serial {events : List (Event τ η ι κ ε)} (h : S.Undisturbed events) {k : Nat}
    (hk : k ≤ events.length) :
    (S.machine.stateAt events k).durable = S.serial.after (S.effects (events.take k)) := by
  induction k with
  | zero => rfl
  | succ k ih =>
    have hevent : events[k]? = some events[k] := List.getElem?_eq_getElem hk
    have hmoved := S.moved_next (S.machine.stateAt events k) events[k]
    rw [Machine.stateAt_succ hevent, Machine.take_succ_of_getElem? hevent, effects,
      Machine.log_append_singleton, ← effects, ← Machine.stateAt]
    cases hx : S.effect (S.machine.stateAt events k) events[k] with
    | none =>
      rw [hx] at hmoved
      rw [Option.toList_none, List.append_nil, ← ih (Nat.le_of_lt hk)]
      exact S.durable_unchanged hmoved
    | some x =>
      rw [hx] at hmoved
      rw [Option.toList_some, Machine.after_append_singleton, ← ih (Nat.le_of_lt hk)]
      exact (S.durable_effect hmoved (S.agreeing_stateAt h k)).1

/-! ## Calls and their answers -/

/-- None of the calls of the thread takes effect between two points. -/
def Quiet (events : List (Event τ η ι κ ε)) (t : τ) (i k : Nat) : Prop :=
  ∀ j, i ≤ j → j < k → ∀ x, S.effectAt events j = some x → x.thread ≠ t

/-- The thread made the call at point `i`, and it is not yet back at point `k`. -/
structure Calling (events : List (Event τ η ι κ ε)) (t : τ) (request : ι) (i k : Nat) : Prop where
  before : i < k
  invoked : events[i]? = some (.invoke t request)
  idle : (S.machine.stateAt events i).threads t = .idle
  busy : ∀ j, i < j → j ≤ k → (S.machine.stateAt events j).threads t ≠ .idle

/-- The call that was made at point `i` has taken effect at `m`, once, with this answer. -/
structure TookEffect (events : List (Event τ η ι κ ε)) (t : τ) (request : ι) (answer : β)
    (i m k : Nat) (ending : κ) : Prop where
  after : i < m
  before : m < k
  effect : S.effectAt events m = some ⟨t, request, ending⟩
  answered : (S.machine.stateAt events (m + 1)).threads t = .answered request answer true
  quietBefore : S.Quiet events t i m
  quietAfter : S.Quiet events t (m + 1) k

/-- What has become of the present call of a thread. -/
structure Since (events : List (Event τ η ι κ ε)) (k : Nat) (t : τ)
    (thread : Thread ι σ κ β) : Prop where
  pending : ∀ request, thread.pending = some request →
    ∃ i, S.Calling events t request i k ∧ S.Quiet events t i k
  served : ∀ request answer, thread = .answered request answer true →
    ∃ i, S.Calling events t request i k ∧
      ∃ m ending, S.TookEffect events t request answer i m k ending
  refused : ∀ request answer, thread = .answered request answer false →
    ∃ i, S.Calling events t request i k ∧ S.Quiet events t i k ∧
      ∃ error, answer = S.refusal request error

/-- What a step does to a thread. -/
inductive Turn (s s' : State τ η ι σ κ β) (e : Event τ η ι κ ε) (x : Option (Effect τ ι κ))
    (t : τ) : Prop
  | stays : s'.threads t = s.threads t → (∀ y, x = some y → y.thread ≠ t) → Turn s s' e x t
  | idles : s'.threads t = .idle → Turn s s' e x t
  | calls {request} : e = .invoke t request → x = none → s.threads t = .idle →
      s'.threads t = .called request → Turn s s' e x t
  | goesOn {request} : (s.threads t).pending = some request →
      (s'.threads t).pending = some request → x = none → Turn s s' e x t
  | served {request answer ending} : (s.threads t).pending = some request →
      s'.threads t = .answered request answer true → x = some ⟨t, request, ending⟩ →
      Turn s s' e x t
  | refused {request error} : (s.threads t).pending = some request →
      s'.threads t = .answered request (S.refusal request error) false → x = none →
      Turn s s' e x t

/-- A step of one thread leaves the others where they are. -/
theorem bystander {s s' : State τ η ι σ κ β} {e : Event τ η ι κ ε} {x : Option (Effect τ ι κ)}
    {r : Option (Response τ ι β)} (h : S.Moved s e s' x r) {t u : τ} (hactor : e.actor = some u)
    (ht : t ≠ u) : s'.threads t = s.threads t ∧ ∀ y, x = some y → y.thread ≠ t := by
  have hothers : ∀ {request ending},
      ∀ y, some (⟨u, request, ending⟩ : Effect τ ι κ) = some y → y.thread ≠ t := by
    rintro request ending _ ⟨⟩
    exact ht.symm
  cases h with
  | stutter => exact ⟨rfl, nofun⟩
  | crash => cases hactor
  | reply | looked | observe | drop | commit =>
    cases hactor
    exact ⟨by simp [ht], hothers⟩
  | _ =>
    cases hactor
    exact ⟨by simp [ht], nofun⟩

/-- A step of the thread itself. -/
theorem turn_of_actor {s s' : State τ η ι σ κ β} {e : Event τ η ι κ ε}
    {x : Option (Effect τ ι κ)} {r : Option (Response τ ι β)} (h : S.Moved s e s' x r) {t : τ}
    (hactor : e.actor = some t) : S.Turn s s' e x t := by
  cases h with
  | stutter => exact .stays rfl nofun
  | crash => cases hactor
  | invoke hidle =>
    cases hactor
    exact .calls rfl rfl hidle (by simp)
  | acquire hbefore | look hbefore | begin hbefore | query hbefore | write hbefore =>
    cases hactor
    exact .goesOn (by rw [hbefore, Thread.pending]) (by simp [Thread.pending]) rfl
  | reply hbefore | looked hbefore | observe hbefore | drop _ hbefore | commit _ hbefore =>
    cases hactor
    exact .served (by rw [hbefore, Thread.pending]) (by simp; rfl) rfl
  | refuseCalled _ hbefore | refuseConnected _ hbefore | refuseInside _ hbefore =>
    cases hactor
    exact .refused (by rw [hbefore, Thread.pending]) (by simp; rfl) rfl
  | respond =>
    cases hactor
    exact .idles (by simp)

/-- A crash ends the calls of its handle, and takes effect for none of the others. -/
theorem turn_of_crash (s : State τ η ι σ κ β) (h : η) (ending : κ) (t : τ) :
    S.Turn s (S.step s (.crash h ending)).1 (.crash h ending) (S.effect s (.crash h ending)) t := by
  by_cases hu : S.handle t = h
  · exact .idles (by simp [step, hu])
  · refine .stays (by simp [step, hu]) fun y hy he => ?_
    simp only [effect] at hy
    split at hy
    · next u request working hfound =>
      split at hy <;> cases hy
      exact hu (he ▸ (S.interrupted_some hfound).1)
    · cases hy

theorem turn_of_moved {s s' : State τ η ι σ κ β} {e : Event τ η ι κ ε}
    {x : Option (Effect τ ι κ)} {r : Option (Response τ ι β)} (h : S.Moved s e s' x r) (t : τ) :
    S.Turn s s' e x t := by
  cases hactor : e.actor with
  | some u =>
    rcases eq_or_ne t u with rfl | hu
    · exact S.turn_of_actor h hactor
    · obtain ⟨hsame, hothers⟩ := S.bystander h hactor hu
      exact .stays hsame hothers
  | none =>
    cases h with
    | stutter => exact .stays rfl nofun
    | crash h ending => exact S.turn_of_crash s h ending t
    | _ => cases hactor

section Run

variable {S} {events : List (Event τ η ι κ ε)} {t : τ} {request : ι} {answer : β} {i k : Nat}

theorem Calling.succ {e : Event τ η ι κ ε} (h : S.Calling events t request i k)
    (hk : events[k]? = some e)
    (hbusy : (S.machine.next (S.machine.stateAt events k) e).threads t ≠ .idle) :
    S.Calling events t request i (k + 1) :=
  { h with
    before := Nat.lt_succ_of_lt h.before
    busy := fun j hij hj => by
      rcases Nat.le_succ_iff.mp hj with hj | rfl
      · exact h.busy j hij hj
      · rwa [Machine.stateAt_succ hk] }

theorem Quiet.succ (h : S.Quiet events t i k)
    (hk : ∀ x, S.effectAt events k = some x → x.thread ≠ t) : S.Quiet events t i (k + 1) := by
  intro j hij hj x hx
  rcases Nat.lt_succ_iff_lt_or_eq.mp hj with hj | rfl
  · exact h j hij hj x hx
  · exact hk x hx

theorem TookEffect.succ {m : Nat} {ending : κ}
    (h : S.TookEffect events t request answer i m k ending)
    (hk : ∀ x, S.effectAt events k = some x → x.thread ≠ t) :
    S.TookEffect events t request answer i m (k + 1) ending :=
  { h with before := Nat.lt_succ_of_lt h.before, quietAfter := h.quietAfter.succ hk }

/-- A step that leaves the thread where it is. -/
theorem Since.succ {e : Event τ η ι κ ε} {thread : Thread ι σ κ β} (hk : events[k]? = some e)
    (hbusy : thread ≠ .idle → (S.machine.next (S.machine.stateAt events k) e).threads t ≠ .idle)
    (hothers : ∀ x, S.effectAt events k = some x → x.thread ≠ t)
    (h : S.Since events k t thread) : S.Since events (k + 1) t thread where
  pending request hr := by
    obtain ⟨i, hcalling, hquiet⟩ := h.pending request hr
    exact ⟨i, hcalling.succ hk (hbusy fun hi => by rw [hi] at hr; cases hr), hquiet.succ hothers⟩
  served request answer hr := by
    obtain ⟨i, hcalling, m, ending, htook⟩ := h.served request answer hr
    exact ⟨i, hcalling.succ hk (hbusy (by rw [hr]; nofun)), m, ending, htook.succ hothers⟩
  refused request answer hr := by
    obtain ⟨i, hcalling, hquiet, herror⟩ := h.refused request answer hr
    exact ⟨i, hcalling.succ hk (hbusy (by rw [hr]; nofun)), hquiet.succ hothers, herror⟩

/-- The call begins at this point. -/
theorem since_called (hk : events[k]? = some (.invoke t request))
    (hidle : (S.machine.stateAt events k).threads t = .idle)
    (hnone : S.effectAt events k = none)
    (hcalled : (S.machine.stateAt events (k + 1)).threads t = .called request) :
    S.Since events (k + 1) t (.called request) := by
  refine ⟨?_, nofun, nofun⟩
  rintro _ ⟨⟩
  refine ⟨k, ⟨Nat.lt_succ_self k, hk, hidle, fun j hkj hj => ?_⟩, fun j hkj hj x hx => ?_⟩
  · obtain rfl : j = k + 1 := by omega
    rw [hcalled]
    nofun
  · obtain rfl : j = k := by omega
    rw [hnone] at hx
    cases hx

theorem since_succ {e : Event τ η ι κ ε} (hk : events[k]? = some e)
    (h : S.Since events k t ((S.machine.stateAt events k).threads t)) :
    S.Since events (k + 1) t ((S.machine.stateAt events (k + 1)).threads t) := by
  have heffect : S.effectAt events k = S.effect (S.machine.stateAt events k) e := by
    rw [effectAt, hk]; rfl
  have hmoved := S.moved_next (S.machine.stateAt events k) e
  rw [Machine.stateAt_succ hk]
  cases S.turn_of_moved hmoved t with
  | stays hsame hothers =>
    rw [hsame]
    refine h.succ hk (fun hbusy => by rwa [hsame]) fun x hx => hothers x ?_
    rw [← heffect, hx]
  | idles hidle =>
    rw [hidle]
    exact ⟨nofun, nofun, nofun⟩
  | @calls request he hnone hidle hcalled =>
    rw [hcalled]
    refine since_called (he ▸ hk) hidle (heffect.trans hnone) ?_
    rw [Machine.stateAt_succ hk, hcalled]
  | @goesOn request hbefore hafter hnone =>
    obtain ⟨i, hcalling, hquiet⟩ := h.pending request hbefore
    have hcalling := hcalling.succ hk fun hi => by rw [hi] at hafter; cases hafter
    refine ⟨fun request' hr => ?_, fun _ _ hr => ?_, fun _ _ hr => ?_⟩
    · obtain rfl : request' = request := Option.some.inj (hr.symm.trans hafter)
      exact ⟨i, hcalling, hquiet.succ (by rw [heffect, hnone]; nofun)⟩
    · rw [hr] at hafter; cases hafter
    · rw [hr] at hafter; cases hafter
  | @served request answer ending hbefore hafter hsome =>
    obtain ⟨i, hcalling, hquiet⟩ := h.pending request hbefore
    have hlater := hcalling.succ hk (by rw [hafter]; nofun)
    have hanswered : (S.machine.stateAt events (k + 1)).threads t =
        .answered request answer true := by rw [Machine.stateAt_succ hk, hafter]
    rw [hafter]
    refine ⟨nofun, ?_, nofun⟩
    rintro _ _ ⟨⟩
    exact ⟨i, hlater, k, ending, hcalling.before, Nat.lt_succ_self k, heffect.trans hsome,
      hanswered, hquiet, fun j hkj hj => by omega⟩
  | @refused request error hbefore hafter hnone =>
    obtain ⟨i, hcalling, hquiet⟩ := h.pending request hbefore
    have hlater := hcalling.succ hk (by rw [hafter]; nofun)
    rw [hafter]
    refine ⟨nofun, nofun, ?_⟩
    rintro _ _ ⟨⟩
    exact ⟨i, hlater, hquiet.succ (by rw [heffect, hnone]; nofun), error, rfl⟩

theorem since_stateAt (t : τ) (hk : k ≤ events.length) :
    S.Since events k t ((S.machine.stateAt events k).threads t) := by
  induction k with
  | zero => exact ⟨nofun, nofun, nofun⟩
  | succ k ih => exact since_succ (List.getElem?_eq_getElem hk) (ih (Nat.le_of_lt hk))

/-- The answer is that of the whole call, on what was durable when it took effect. -/
theorem TookEffect.answer_eq (h : S.Undisturbed events) {m : Nat} {ending : κ}
    (htook : S.TookEffect events t request answer i m k ending) :
    answer = (S.atomic request ending (S.machine.stateAt events m).durable).2 := by
  obtain ⟨e, he, heffect⟩ := Option.bind_eq_some_iff.mp htook.effect
  have hmoved := S.moved_next (S.machine.stateAt events m) e
  rw [heffect] at hmoved
  have hanswered := htook.answered
  rw [Machine.stateAt_succ he] at hanswered
  rcases (S.durable_effect hmoved (S.agreeing_stateAt h m)).2 with hidle | hafter
  · rw [hanswered] at hidle
    cases hidle
  · exact (Thread.answered.inj (hanswered.symm.trans hafter)).2.1

/-- The call that takes effect at a point, in the run of one call after the other. -/
theorem serial_replyAt (h : S.Undisturbed events) {m : Nat} {x : Effect τ ι κ}
    (hx : S.effectAt events m = some x) :
    S.serial.replyAt (S.effects events) (S.effects (events.take m)).length =
      some (S.atomic x.request x.ending (S.machine.stateAt events m).durable).2 := by
  obtain ⟨e, he, heffect⟩ := Option.bind_eq_some_iff.mp hx
  obtain ⟨post, hpost⟩ : ∃ post, S.effects events = S.effects (events.take m) ++
      (S.effect (S.machine.stateAt events m) e).toList ++ post := Machine.log_at he
  have hlog : S.effects events = S.effects (events.take m) ++ x :: post := by
    rw [hpost, heffect, Option.toList_some, List.append_assoc, List.singleton_append]
  have hm := (List.getElem?_eq_some_iff.mp he).1
  rw [Machine.replyAt, Machine.stateAt, hlog, List.take_left' rfl,
    ← durable_serial S h (Nat.le_of_lt hm)]
  simp [serial]

theorem answered_of_moved {s s' : State τ η ι σ κ β} {e : Event τ η ι κ ε}
    {x : Option (Effect τ ι κ)} {r : Response τ ι β} (h : S.Moved s e s' x (some r)) :
    s.threads r.thread = .answered r.request r.answer r.served := by
  cases h with
  | respond hanswered => exact hanswered

theorem response_eq {r : Response τ ι β} (h : S.machine.replyAt events k = some (some r)) :
    k < events.length ∧
      (S.machine.stateAt events k).threads r.thread = .answered r.request r.answer r.served := by
  obtain ⟨e, he, hstep⟩ := Option.map_eq_some_iff.mp h
  refine ⟨(List.getElem?_eq_some_iff.mp he).1, ?_⟩
  have hmoved := S.moved_next (S.machine.stateAt events k) e
  rw [hstep] at hmoved
  exact answered_of_moved hmoved

/-- A call that takes effect has been made before, and takes effect only once. -/
theorem invoked_of_effect {x : Effect τ ι κ}
    (hx : S.effectAt events k = some x) :
    ∃ i, S.Calling events x.thread x.request i k ∧ S.Quiet events x.thread i k := by
  obtain ⟨e, he, heffect⟩ := Option.bind_eq_some_iff.mp hx
  have hmoved := S.moved_next (S.machine.stateAt events k) e
  rw [heffect] at hmoved
  have hk := (List.getElem?_eq_some_iff.mp he).1
  exact (since_stateAt x.thread (Nat.le_of_lt hk)).pending _ (S.pending_of_effect hmoved)

theorem effects_succ (events : List (Event τ η ι κ ε)) (k : Nat) :
    S.effects (events.take (k + 1)) =
      S.effects (events.take k) ++ (S.effectAt events k).toList := by
  cases hk : events[k]? with
  | none => simp [effectAt, hk, List.take_add_one]
  | some e =>
    rw [Machine.take_succ_of_getElem? hk, effects, Machine.log_append_singleton, ← effects,
      effectAt, hk]
    rfl

/-- A served call took effect once, between its invocation and its answer. -/
theorem tookEffect_of_served {r : Response τ ι β}
    (hr : S.machine.replyAt events k = some (some r)) (hserved : r.served = true) :
    ∃ i, S.Calling events r.thread r.request i k ∧
      ∃ m ending, S.TookEffect events r.thread r.request r.answer i m k ending := by
  obtain ⟨hk, hthread⟩ := response_eq hr
  have hsince := since_stateAt (S := S) r.thread (Nat.le_of_lt hk)
  rw [hthread, hserved] at hsince
  exact hsince.served _ _ rfl

/-- What the threads get to see is what they would have got one call after the other, in
the order in which their calls took effect: a served call took effect once between its
invocation and its answer. -/
theorem linearized (h : S.Undisturbed events) {r : Response τ ι β}
    (hr : S.machine.replyAt events k = some (some r)) (hserved : r.served = true) :
    ∃ i, S.Calling events r.thread r.request i k ∧
      ∃ m ending, i < m ∧ m < k ∧ S.effectAt events m = some ⟨r.thread, r.request, ending⟩ ∧
        S.serial.replyAt (S.effects events) (S.effects (events.take m)).length = some r.answer ∧
        S.Quiet events r.thread i m ∧ S.Quiet events r.thread (m + 1) k := by
  obtain ⟨i, hcalling, m, ending, htook⟩ := tookEffect_of_served hr hserved
  refine ⟨i, hcalling, m, ending, htook.after, htook.before, htook.effect, ?_, htook.quietBefore,
    htook.quietAfter⟩
  rw [serial_replyAt h htook.effect, htook.answer_eq h]

/-- A call that is being made at some point takes effect after it. -/
theorem effect_later {n m : Nat} {x : Effect τ ι κ}
    (hn : n ≤ events.length) {before : ι}
    (hpending : ((S.machine.stateAt events n).threads x.thread).pending = some before)
    (hcalling : S.Calling events x.thread request i k) (hnk : n ≤ k) (him : i < m)
    (hx : S.effectAt events m = some x) : n ≤ m := by
  obtain ⟨j, hcalled, hquiet⟩ := (since_stateAt x.thread hn).pending before hpending
  by_contra hmn
  have hjm : m < j := by
    by_contra hmj
    exact hquiet m (Nat.le_of_not_lt hmj) (Nat.lt_of_not_le hmn) x hx rfl
  -- The thread was idle in between, so that it made two calls.
  exact hcalling.busy j (Nat.lt_trans him hjm) (Nat.le_trans (Nat.le_of_lt hcalled.before) hnk)
    hcalled.idle

/-- A refused call did not take effect. -/
theorem refused_quiet {r : Response τ ι β}
    (hr : S.machine.replyAt events k = some (some r)) (hrefused : r.served = false) :
    ∃ i, S.Calling events r.thread r.request i k ∧ S.Quiet events r.thread i k ∧
      ∃ error, r.answer = S.refusal r.request error := by
  obtain ⟨hk, hthread⟩ := response_eq hr
  have hsince := since_stateAt (S := S) r.thread (Nat.le_of_lt hk)
  rw [hthread, hrefused] at hsince
  exact hsince.refused _ _ rfl

end Run

section Handles

variable {S} {events : List (Event τ η ι κ ε)}

/-- The calls of one handle do not disturb each other. -/
theorem undisturbed_of_handles
    (reads : ∀ request, S.exclusive request = false → ∀ program,
      (S.program request).Rest program →
      (∃ answer, program = .reply answer) ∨ program = S.program request)
    (writes : ∀ request body, (S.program request).Rest (.transaction body) →
      S.exclusive request = true)
    (others : ∀ k x working body, S.effectAt events k = some x →
      (S.machine.stateAt events k).threads x.thread = .inside x.request working body →
      ∀ t request program, (S.machine.stateAt events k).threads t = .connected request program →
        S.handle t ≠ S.handle x.thread → program ≠ S.program request →
        S.serial.Reachable (S.machine.stateAt events k).durable →
        S.Agrees request program (S.machine.stateAt events k).durable →
        S.Agrees request program
          (S.atomic x.request x.ending (S.machine.stateAt events k).durable).1) :
    S.Undisturbed events := by
  intro k x working body hx hinside t request program hconnected hwhole hreachable hagrees
  have hguarded := S.guarded_stateAt events k
  obtain ⟨hreply, hrest, hmutex⟩ := hguarded.connected t request program hconnected
  obtain ⟨-, -, ⟨first, hfirst⟩, hheld⟩ := hguarded.inside _ _ _ _ hinside
  refine others k x working body hx hinside t request program hconnected (fun he => ?_) hwhole
    hreachable hagrees
  -- Both of them would hold the mutex.
  have hexclusive : S.exclusive request = true := by
    cases hexclusive : S.exclusive request with
    | true => rfl
    | false =>
      rcases reads request hexclusive program hrest with ⟨answer, hanswer⟩ | hsame
      · exact absurd hanswer (hreply answer)
      · exact absurd hsame hwhole
  have hsame := hmutex hexclusive
  rw [he, hheld (writes x.request first hfirst)] at hsame
  rw [Option.some.inj hsame, hconnected] at hinside
  cases hinside

/-- A call of a handle that is for reading only leaves the database alone. -/
theorem durable_of_readOnly {k : Nat} {x : Effect τ ι κ} (hx : S.effectAt events k = some x)
    (readOnly : S.writable (S.handle x.thread) = false) :
    (S.machine.stateAt events (k + 1)).durable = (S.machine.stateAt events k).durable := by
  obtain ⟨e, he, heffect⟩ := Option.bind_eq_some_iff.mp hx
  have hmoved := S.moved_next (S.machine.stateAt events k) e
  rw [heffect] at hmoved
  rw [Machine.stateAt_succ he]
  rcases S.effect_cases hmoved with ⟨working, body, hinside⟩ | hsame
  · have hwritable := ((S.guarded_stateAt events k).inside _ _ _ _ hinside).2.1
    rw [readOnly] at hwritable
    cases hwritable
  · exact hsame

/-- Whoever changes the database has a handle that can write. -/
theorem writable_of_changed {k : Nat} (hchanged : (S.machine.stateAt events (k + 1)).durable ≠
    (S.machine.stateAt events k).durable) :
    ∃ x, S.effectAt events k = some x ∧ S.writable (S.handle x.thread) = true := by
  cases hk : events[k]? with
  | none => exact absurd (by rw [Machine.stateAt_succ_of_ge hk]) hchanged
  | some e =>
    have heffect : S.effectAt events k = S.effect (S.machine.stateAt events k) e := by
      rw [effectAt, hk]; rfl
    cases hx : S.effectAt events k with
    | none =>
      have hmoved := S.moved_next (S.machine.stateAt events k) e
      rw [← heffect, hx] at hmoved
      exact absurd (by rw [Machine.stateAt_succ hk, S.durable_unchanged hmoved]) hchanged
    | some x =>
      refine ⟨x, rfl, ?_⟩
      by_contra hreadOnly
      exact hchanged (durable_of_readOnly hx (Bool.eq_false_iff.mpr hreadOnly))

/-- A call that is served without a transaction of its own, and after no look that it has had
before, is the whole call on what is durable. -/
theorem atomic_of_moved {s s' : State τ η ι σ κ β} {e : Event τ η ι κ ε} {t : τ} {request : ι}
    {answer : β} {ending : κ} {r : Option (Response τ ι β)}
    (h : S.Moved s e s' (some ⟨t, request, ending⟩) r)
    (hanswered : s'.threads t = .answered request answer true)
    (hwhole : ∀ program, s.threads t = .connected request program → program = S.program request)
    (houtside : ∀ working body, s.threads t ≠ .inside request working body) :
    S.atomic request S.done s.durable = (s.durable, answer) := by
  generalize hy : some (⟨t, request, ending⟩ : Effect τ ι κ) = y at h
  cases h with
  | reply hcalled hfree hprogram =>
    cases hy
    rw [lock_threads, move_threads, if_pos rfl] at hanswered
    cases hanswered
    rw [atomic, hprogram, Program.atomic]
  | looked hlook hnext =>
    cases hy
    rw [move_threads, if_pos rfl] at hanswered
    cases hanswered
    rw [atomic, ← hwhole _ hlook, Program.atomic, hnext, Program.atomic]
  | observe hbody _ hreads =>
    cases hy
    rw [move_threads, if_pos rfl] at hanswered
    cases hanswered
    rw [atomic, ← hwhole _ hbody, Program.atomic, Body.atomic_of_readOnly hreads rfl]
  | drop _ hdrop =>
    cases hy
    exact absurd hdrop (houtside _ _)
  | commit _ hcommit =>
    cases hy
    exact absurd hcommit (houtside _ _)
  | crash h ending =>
    simp only [effect] at hy
    split at hy
    · next t request working hfound =>
      obtain ⟨-, answer, hcommit⟩ := S.interrupted_some hfound
      split at hy <;> cases hy
      exact absurd hcommit (houtside _ _)
    · cases hy
  | _ => cases hy

/-- What such a handle answers is what the call answers that changes nothing. Of a call with a
look before others only the whole will do. -/
theorem TookEffect.of_readOnly {t : τ} {request : ι} {answer : β} {i m k : Nat} {ending : κ}
    (h : S.TookEffect events t request answer i m k ending)
    (readOnly : S.writable (S.handle t) = false)
    (whole : ∀ program, (S.program request).Rest program →
      (∃ answer, program = .reply answer) ∨ program = S.program request) :
    S.atomic request S.done (S.machine.stateAt events m).durable =
      ((S.machine.stateAt events m).durable, answer) := by
  obtain ⟨e, he, heffect⟩ := Option.bind_eq_some_iff.mp h.effect
  have hmoved := S.moved_next (S.machine.stateAt events m) e
  have hguarded := S.guarded_stateAt events m
  have hanswered := h.answered
  rw [heffect] at hmoved
  rw [Machine.stateAt_succ he] at hanswered
  refine atomic_of_moved hmoved hanswered (fun program hprogram => ?_) fun working body hin => ?_
  · obtain ⟨hreply, hrest, -⟩ := hguarded.connected t request program hprogram
    rcases whole program hrest with ⟨answer, hanswer⟩ | hsame
    · exact absurd hanswer (hreply answer)
    · exact hsame
  · have hwritable := (hguarded.inside _ _ _ _ hin).2.1
    rw [readOnly] at hwritable
    cases hwritable

end Handles

end Service

end Threads
