import Mathlib.Logic.Function.Basic
import Minisqlite.Lib.Machine

/-!
# Threads over a database with one writer

Threads make calls of a database through handles. A call that writes holds the mutex of
its handle, and the database lets one transaction write at a time, whatever its handle.
Inside a transaction a call works on a copy, one statement at a time; COMMIT makes the copy
durable. A query outside of a transaction sees what is durable at that moment. A handle on a
file that is opened for reading only can begin a transaction too: it waits for nobody, sees
what is durable then, and gets no further than to its first write. Any call can be refused
by the storage, and the process of a handle can die at any moment.

* `Body.atomic`, `Program.atomic`: a call as one step, with nothing in between.
* `Service.machine`: the threads, one step of one of them at a time.
* `Service.moved`: what a step can do; `Service.guarded_stateAt`: who holds which lock.
-/

namespace Threads

open Runs

universe u

/-! ## Programs -/

section Programs

variable {σ κ β : Type u}

/-- What is left of a transaction. A dropped transaction is rolled back. -/
inductive Body (σ κ β : Type u)
  | drop (answer : β)
  | commit (answer : κ → β)
  | query (next : σ → Body σ κ β)
  | write (working : σ) (next : Body σ κ β)

/-- What is left of a call that is in no transaction. -/
inductive Program (σ κ β : Type u)
  | reply (answer : β)
  | look (next : σ → Program σ κ β)
  | transaction (body : Body σ κ β)

variable (persists : κ → Bool) (ending : κ) (durable : σ)

/-- The rest of a transaction at once, on its working copy. -/
def Body.atomic : Body σ κ β → σ → σ × β
  | .drop answer, _ => (durable, answer)
  | .commit answer, working => (if persists ending then working else durable, answer ending)
  | .query next, working => (next working).atomic working
  | .write working next, _ => next.atomic working

/-- What a transaction answers that sees this state and may only read. Where it would write
there is no answer. -/
def Body.readOnly : Body σ κ β → σ → Option β
  | .drop answer, _ => some answer
  | .commit answer, _ => some (answer ending)
  | .query next, working => (next working).readOnly working
  | .write _ _, _ => none

/-- The rest of a call at once. -/
def Program.atomic : Program σ κ β → σ × β
  | .reply answer => (durable, answer)
  | .look next => (next durable).atomic
  | .transaction body => body.atomic persists ending durable durable

/-- What a call can still have to do after some of its looks. -/
inductive Program.Rest (program : Program σ κ β) : Program σ κ β → Prop
  | all : Rest program program
  | look {next} (durable : σ) : Rest program (.look next) → Rest program (next durable)

namespace Body

/-- A statement that can fail. -/
def attempt {α : Type u} (f : σ → Except β (α × σ)) (next : α → Body σ κ β) : Body σ κ β :=
  .query fun working =>
    match f working with
    | .error answer => .drop answer
    | .ok (a, working) => .write working (next a)

/-- A query whose result can end the transaction. -/
def check {α : Type u} (f : σ → Except β α) (next : α → Body σ κ β) : Body σ κ β :=
  .query fun working =>
    match f working with
    | .error answer => .drop answer
    | .ok a => next a

/-- A loop of queries with a local variable. -/
def checkEach {α γ : Type u} (f : σ → γ → α → Except β γ) :
    List α → γ → (γ → Body σ κ β) → Body σ κ β
  | [], c, next => next c
  | a :: rest, c, next => check (fun working => f working c a) fun c => checkEach f rest c next

/-- A statement that writes begins, which needs the right to write. -/
def writing (next : Body σ κ β) : Body σ κ β := .query fun working => .write working next

/-- A loop of statements with a local variable. -/
def each {α γ : Type u} (f : γ → α → σ → Except β (γ × σ)) :
    List α → γ → (γ → Body σ κ β) → Body σ κ β
  | [], c, next => next c
  | a :: rest, c, next => attempt (f c a) fun c => each f rest c next

variable {persists ending durable}

theorem atomic_attempt {α : Type u} (f : σ → Except β (α × σ)) (next : α → Body σ κ β)
    (working : σ) : (attempt f next).atomic persists ending durable working =
      match f working with
      | .error answer => (durable, answer)
      | .ok (a, working) => (next a).atomic persists ending durable working := by
  rw [attempt, atomic]
  rcases f working with answer | ⟨a, working⟩ <;> rfl

theorem atomic_check {α : Type u} (f : σ → Except β α) (next : α → Body σ κ β) (working : σ) :
    (check f next).atomic persists ending durable working =
      match f working with
      | .error answer => (durable, answer)
      | .ok a => (next a).atomic persists ending durable working := by
  rw [check, atomic]
  rcases f working with answer | a <;> rfl

theorem atomic_checkEach {α γ : Type u} (f : σ → γ → α → Except β γ) (xs : List α) (c : γ)
    (next : γ → Body σ κ β) (working : σ) :
    (checkEach f xs c next).atomic persists ending durable working =
      match xs.foldlM (f working) c with
      | .error answer => (durable, answer)
      | .ok c => (next c).atomic persists ending durable working := by
  induction xs generalizing c with
  | nil => rfl
  | cons a rest ih =>
    rw [checkEach, atomic_check, List.foldlM_cons]
    rcases f working c a with answer | c
    · rfl
    · exact ih c

@[simp] theorem atomic_writing (next : Body σ κ β) (working : σ) :
    (writing next).atomic persists ending durable working =
      next.atomic persists ending durable working := rfl

/-- A transaction that only reads leaves the state alone. -/
theorem atomic_of_readOnly {body : Body σ κ β} {working : σ} {answer : β}
    (h : body.readOnly ending working = some answer) (hworking : working = durable) :
    body.atomic persists ending durable working = (durable, answer) := by
  induction body generalizing working with
  | drop _ =>
    cases h
    rfl
  | commit _ =>
    cases h
    rw [atomic, hworking, ite_self]
  | query next ih => exact ih working h hworking
  | write => cases h

/-- The loop is that of the state and the local variable. -/
theorem atomic_each {α γ : Type u} (f : γ → α → σ → Except β (γ × σ)) (xs : List α) (c : γ)
    (next : γ → Body σ κ β) (working : σ) :
    (each f xs c next).atomic persists ending durable working =
      match xs.foldlM (fun (s : γ × σ) a => f s.1 a s.2) (c, working) with
      | .error answer => (durable, answer)
      | .ok (c, working) => (next c).atomic persists ending durable working := by
  induction xs generalizing c working with
  | nil => rfl
  | cons a rest ih =>
    rw [each, atomic_attempt, List.foldlM_cons]
    rcases f c a working with answer | ⟨c, working⟩
    · rfl
    · exact ih c working

end Body

end Programs

/-! ## The machine -/

section Machine

/-- Where a thread is. -/
inductive Thread (ι σ κ β : Type u)
  | idle
  | called (request : ι)
  | connected (request : ι) (program : Program σ κ β)
  | inside (request : ι) (working : σ) (body : Body σ κ β)
  /-- The call is over, and was served or refused. -/
  | answered (request : ι) (answer : β) (served : Bool)

/-- The thread is in a transaction. -/
@[grind] def Thread.writes {ι σ κ β : Type u} : Thread ι σ κ β → Bool
  | .inside .. => true
  | _ => false

/-- The thread has a call that has got as far as its connection. -/
@[grind] def Thread.entered {ι σ κ β : Type u} : Thread ι σ κ β → Bool
  | .idle | .called _ => false
  | _ => true

/-- The call that the thread is making. -/
@[grind] def Thread.pending {ι σ κ β : Type u} : Thread ι σ κ β → Option ι
  | .called request | .connected request _ | .inside request _ _ => some request
  | _ => none

structure State (τ η ι σ κ β : Type u) where
  durable : σ
  /-- Whose transaction may write. -/
  writing : Option τ
  mutex : η → Option τ
  threads : τ → Thread ι σ κ β

inductive Event (τ η ι κ ε : Type u)
  | invoke (t : τ) (request : ι)
  | acquire (t : τ)
  | look (t : τ)
  | begin (t : τ)
  | statement (t : τ)
  /-- The transaction ends, by COMMIT or without. -/
  | finish (t : τ) (ending : κ)
  /-- The storage fails before the COMMIT. -/
  | refuse (t : τ) (error : ε)
  | respond (t : τ)
  /-- The process of a handle dies, perhaps during its COMMIT. -/
  | crash (h : η) (ending : κ)

/-- Whose step it is. A crash is nobody's. -/
def Event.actor {τ η ι κ ε : Type u} : Event τ η ι κ ε → Option τ
  | .invoke t _ | .acquire t | .look t | .begin t | .statement t | .finish t _ | .refuse t _
  | .respond t => some t
  | .crash .. => none

/-- What a call gets back. -/
structure Response (τ ι β : Type u) where
  thread : τ
  request : ι
  answer : β
  served : Bool

/-- A call that takes effect. -/
structure Effect (τ ι κ : Type u) where
  thread : τ
  request : ι
  ending : κ

/-- What the requests do, and who makes them. -/
structure Service (τ η ι σ κ β ε : Type u) where
  start : σ
  persists : κ → Bool
  /-- A COMMIT that nothing disturbs. -/
  done : κ
  program : ι → Program σ κ β
  /-- The request needs the mutex of its handle. -/
  exclusive : ι → Bool
  refusal : ι → ε → β
  handle : τ → η
  /-- On a file that is opened for reading only no transaction writes. -/
  writable : η → Bool

namespace Service

variable {τ η ι σ κ β ε : Type u} [DecidableEq τ] [DecidableEq η] (S : Service τ η ι σ κ β ε)

/-- The call as one step. -/
def atomic (request : ι) (ending : κ) (durable : σ) : σ × β :=
  (S.program request).atomic S.persists ending durable

/-- One call after the other. -/
def serial : Machine σ (Effect τ ι κ) β :=
  ⟨S.start, fun s x => S.atomic x.request x.ending s⟩

def move (s : State τ η ι σ κ β) (t : τ) (thread : Thread ι σ κ β) : State τ η ι σ κ β :=
  { s with threads := Function.update s.threads t thread }

/-- A program that is an answer is over. -/
def settle (request : ι) : Program σ κ β → Thread ι σ κ β
  | .reply answer => .answered request answer true
  | program => .connected request program

/-- A call that is over has taken effect. -/
def settled (t : τ) (request : ι) : Program σ κ β → Option (Effect τ ι κ)
  | .reply _ => some ⟨t, request, S.done⟩
  | _ => none

/-- The mutex is there for the request. -/
def free (s : State τ η ι σ κ β) (t : τ) (request : ι) : Bool :=
  !S.exclusive request || (s.mutex (S.handle t)).isNone

def lock (s : State τ η ι σ κ β) (t : τ) (request : ι) : State τ η ι σ κ β :=
  if S.exclusive request then
    { s with mutex := Function.update s.mutex (S.handle t) (some t) }
  else s

def unlock (s : State τ η ι σ κ β) (t : τ) : State τ η ι σ κ β :=
  if s.mutex (S.handle t) = some t then
    { s with mutex := Function.update s.mutex (S.handle t) none }
  else s

/-- The transaction that a crash interrupts in its COMMIT. -/
def interrupted (s : State τ η ι σ κ β) (h : η) : Option (τ × ι × σ) :=
  match s.writing with
  | none => none
  | some t =>
    if S.handle t = h then
      match s.threads t with
      | .inside request working (.commit _) => some (t, request, working)
      | _ => none
    else none

def step (s : State τ η ι σ κ β) :
    Event τ η ι κ ε → State τ η ι σ κ β × Option (Response τ ι β)
  | .invoke t request =>
    match s.threads t with
    | .idle => (move s t (.called request), none)
    | _ => (s, none)
  | .acquire t =>
    match s.threads t with
    | .called request =>
      if S.free s t request then
        (S.lock (move s t (settle request (S.program request))) t request, none)
      else (s, none)
    | _ => (s, none)
  | .look t =>
    match s.threads t with
    | .connected request (.look next) => (move s t (settle request (next s.durable)), none)
    | _ => (s, none)
  | .begin t =>
    match s.threads t with
    | .connected request (.transaction body) =>
      if S.writable (S.handle t) then
        match s.writing with
        | none => ({ move s t (.inside request s.durable body) with writing := some t }, none)
        | some _ => (s, none)
      else
        -- All its queries see this one state. A write can only be refused.
        match body.readOnly S.done s.durable with
        | some answer => (move s t (.answered request answer true), none)
        | none => (s, none)
    | _ => (s, none)
  | .statement t =>
    match s.threads t with
    | .inside request working (.query next) =>
      (move s t (.inside request working (next working)), none)
    | .inside request _ (.write working next) => (move s t (.inside request working next), none)
    | _ => (s, none)
  | .finish t ending =>
    match s.threads t with
    | .inside request _ (.drop answer) =>
      ({ move s t (.answered request answer true) with writing := none }, none)
    | .inside request working (.commit answer) =>
      ({ move s t (.answered request (answer ending) true) with
        durable := if S.persists ending then working else s.durable
        writing := none }, none)
    | _ => (s, none)
  | .refuse t error =>
    match s.threads t with
    | .called request =>
      if S.free s t request then
        (move s t (.answered request (S.refusal request error) false), none)
      else (s, none)
    | .connected request _ =>
      (move s t (.answered request (S.refusal request error) false), none)
    | .inside request _ _ =>
      ({ move s t (.answered request (S.refusal request error) false) with writing := none }, none)
    | _ => (s, none)
  | .respond t =>
    match s.threads t with
    | .answered request answer served =>
      (S.unlock (move s t .idle) t, some ⟨t, request, answer, served⟩)
    | _ => (s, none)
  | .crash h ending =>
    ({ durable := match S.interrupted s h with
        | some (_, _, working) => if S.persists ending then working else s.durable
        | none => s.durable
       writing := s.writing.filter fun t => decide (S.handle t ≠ h)
       mutex := Function.update s.mutex h none
       threads := fun t => if S.handle t = h then .idle else s.threads t }, none)

/-- The call that takes effect in a step. -/
def effect (s : State τ η ι σ κ β) : Event τ η ι κ ε → Option (Effect τ ι κ)
  | .acquire t =>
    match s.threads t with
    | .called request =>
      if S.free s t request then S.settled t request (S.program request) else none
    | _ => none
  | .look t =>
    match s.threads t with
    | .connected request (.look next) => S.settled t request (next s.durable)
    | _ => none
  | .begin t =>
    match s.threads t with
    | .connected request (.transaction body) =>
      if S.writable (S.handle t) then none
      else (body.readOnly S.done s.durable).map fun _ => ⟨t, request, S.done⟩
    | _ => none
  | .finish t ending =>
    match s.threads t with
    | .inside request _ (.drop _) => some ⟨t, request, ending⟩
    | .inside request _ (.commit _) => some ⟨t, request, ending⟩
    | _ => none
  | .crash h ending =>
    match S.interrupted s h with
    | some (t, request, _) => if S.persists ending then some ⟨t, request, ending⟩ else none
    | none => none
  | _ => none

/-- All threads, one step of one of them at a time. -/
def machine : Machine (State τ η ι σ κ β) (Event τ η ι κ ε) (Option (Response τ ι β)) :=
  ⟨⟨S.start, none, fun _ => none, fun _ => .idle⟩, S.step⟩

/-- The calls in the order in which they take effect. -/
def effects (events : List (Event τ η ι κ ε)) : List (Effect τ ι κ) :=
  S.machine.log (fun s e => (S.effect s e).toList) events

/-- The call that takes effect at a point of a run. -/
def effectAt (events : List (Event τ η ι κ ε)) (k : Nat) : Option (Effect τ ι κ) :=
  events[k]?.bind (S.effect (S.machine.stateAt events k))

/-! ## What a step can do -/

/-- The steps, and what each of them needs. -/
inductive Moved (s : State τ η ι σ κ β) : Event τ η ι κ ε → State τ η ι σ κ β →
    Option (Effect τ ι κ) → Option (Response τ ι β) → Prop
  /-- The event does not apply. -/
  | stutter (e) : Moved s e s none none
  | invoke {t request} : s.threads t = .idle →
      Moved s (.invoke t request) (move s t (.called request)) none none
  | acquire {t request} : s.threads t = .called request → S.free s t request = true →
      (∀ answer, S.program request ≠ .reply answer) →
      Moved s (.acquire t) (S.lock (move s t (.connected request (S.program request))) t request)
        none none
  | reply {t request answer} : s.threads t = .called request → S.free s t request = true →
      S.program request = .reply answer →
      Moved s (.acquire t) (S.lock (move s t (.answered request answer true)) t request)
        (some ⟨t, request, S.done⟩) none
  | look {t request next} : s.threads t = .connected request (.look next) →
      (∀ answer, next s.durable ≠ .reply answer) →
      Moved s (.look t) (move s t (.connected request (next s.durable))) none none
  | looked {t request next answer} : s.threads t = .connected request (.look next) →
      next s.durable = .reply answer →
      Moved s (.look t) (move s t (.answered request answer true)) (some ⟨t, request, S.done⟩) none
  | begin {t request body} : s.threads t = .connected request (.transaction body) →
      s.writing = none → S.writable (S.handle t) = true →
      Moved s (.begin t) { move s t (.inside request s.durable body) with writing := some t }
        none none
  | observe {t request body answer} : s.threads t = .connected request (.transaction body) →
      S.writable (S.handle t) = false → body.readOnly S.done s.durable = some answer →
      Moved s (.begin t) (move s t (.answered request answer true)) (some ⟨t, request, S.done⟩) none
  | query {t request working next} : s.threads t = .inside request working (.query next) →
      Moved s (.statement t) (move s t (.inside request working (next working))) none none
  | write {t request before working next} :
      s.threads t = .inside request before (.write working next) →
      Moved s (.statement t) (move s t (.inside request working next)) none none
  | drop {t request working answer} (ending) :
      s.threads t = .inside request working (.drop answer) →
      Moved s (.finish t ending) { move s t (.answered request answer true) with writing := none }
        (some ⟨t, request, ending⟩) none
  | commit {t request working answer} (ending) :
      s.threads t = .inside request working (.commit answer) →
      Moved s (.finish t ending) { move s t (.answered request (answer ending) true) with
        durable := if S.persists ending then working else s.durable
        writing := none } (some ⟨t, request, ending⟩) none
  | refuseCalled {t request} (error) : s.threads t = .called request →
      Moved s (.refuse t error) (move s t (.answered request (S.refusal request error) false))
        none none
  | refuseConnected {t request program} (error) : s.threads t = .connected request program →
      Moved s (.refuse t error) (move s t (.answered request (S.refusal request error) false))
        none none
  | refuseInside {t request working body} (error) : s.threads t = .inside request working body →
      Moved s (.refuse t error)
        { move s t (.answered request (S.refusal request error) false) with writing := none }
        none none
  | respond {t request answer served} : s.threads t = .answered request answer served →
      Moved s (.respond t) (S.unlock (move s t .idle) t) none
        (some ⟨t, request, answer, served⟩)
  | crash (h ending) :
      Moved s (.crash h ending) (S.step s (.crash h ending)).1 (S.effect s (.crash h ending)) none

omit [DecidableEq τ] [DecidableEq η] in
theorem settle_cases (t : τ) (request : ι) (program : Program σ κ β) :
    (∃ answer, program = .reply answer ∧ settle request program = .answered request answer true ∧
      S.settled t request program = some ⟨t, request, S.done⟩) ∨
    (∀ answer, program ≠ .reply answer) ∧ settle request program = .connected request program ∧
      S.settled t request program = none := by
  cases program with
  | reply answer => exact .inl ⟨answer, rfl, rfl, rfl⟩
  | look next => exact .inr ⟨nofun, rfl, rfl⟩
  | transaction body => exact .inr ⟨nofun, rfl, rfl⟩

theorem moved_acquire (s : State τ η ι σ κ β) (t : τ) :
    S.Moved s (.acquire t) (S.step s (.acquire t)).1 (S.effect s (.acquire t))
      (S.step s (.acquire t)).2 := by
  cases h : s.threads t <;> simp only [step, effect, h]
  case called request =>
    cases hfree : S.free s t request with
    | false => exact .stutter _
    | true =>
      rw [if_pos rfl, if_pos rfl]
      rcases S.settle_cases t request (S.program request) with
        ⟨answer, hprogram, hsettle, hsettled⟩ | ⟨hprogram, hsettle, hsettled⟩
      · rw [hsettle, hsettled]
        exact .reply h hfree hprogram
      · rw [hsettle, hsettled]
        exact .acquire h hfree hprogram
  all_goals exact .stutter _

theorem moved_look (s : State τ η ι σ κ β) (t : τ) :
    S.Moved s (.look t) (S.step s (.look t)).1 (S.effect s (.look t)) (S.step s (.look t)).2 := by
  cases h : s.threads t <;> simp only [step, effect, h]
  case connected request program =>
    cases program with
    | look next =>
      simp only
      rcases S.settle_cases t request (next s.durable) with
        ⟨answer, hnext, hsettle, hsettled⟩ | ⟨hnext, hsettle, hsettled⟩
      · rw [hsettle, hsettled]
        exact .looked h hnext
      · rw [hsettle, hsettled]
        exact .look h hnext
    | reply answer => exact .stutter _
    | transaction body => exact .stutter _
  all_goals exact .stutter _

theorem moved_begin (s : State τ η ι σ κ β) (t : τ) :
    S.Moved s (.begin t) (S.step s (.begin t)).1 (S.effect s (.begin t))
      (S.step s (.begin t)).2 := by
  cases h : s.threads t <;> simp only [step, effect, h]
  case connected request program =>
    cases program with
    | transaction body =>
      cases hwritable : S.writable (S.handle t) with
      | true =>
        cases hwriting : s.writing with
        | some u => exact .stutter _
        | none => exact .begin h hwriting hwritable
      | false =>
        cases hreads : body.readOnly S.done s.durable with
        | none => simpa [hreads] using .stutter _
        | some answer => simpa [hreads] using .observe h hwritable hreads
    | reply answer => exact .stutter _
    | look next => exact .stutter _
  all_goals exact .stutter _

theorem moved_statement (s : State τ η ι σ κ β) (t : τ) :
    S.Moved s (.statement t) (S.step s (.statement t)).1 (S.effect s (.statement t))
      (S.step s (.statement t)).2 := by
  cases h : s.threads t <;> simp only [step, effect, h]
  case inside request working body =>
    cases body with
    | query next => exact .query h
    | write _ next => exact .write h
    | drop answer => exact .stutter _
    | commit answer => exact .stutter _
  all_goals exact .stutter _

theorem moved_finish (s : State τ η ι σ κ β) (t : τ) (ending : κ) :
    S.Moved s (.finish t ending) (S.step s (.finish t ending)).1 (S.effect s (.finish t ending))
      (S.step s (.finish t ending)).2 := by
  cases h : s.threads t <;> simp only [step, effect, h]
  case inside request working body =>
    cases body with
    | drop answer => exact .drop ending h
    | commit answer => exact .commit ending h
    | query next => exact .stutter _
    | write _ next => exact .stutter _
  all_goals exact .stutter _

theorem moved_refuse (s : State τ η ι σ κ β) (t : τ) (error : ε) :
    S.Moved s (.refuse t error) (S.step s (.refuse t error)).1 (S.effect s (.refuse t error))
      (S.step s (.refuse t error)).2 := by
  cases h : s.threads t <;> simp only [step, effect, h]
  case called request =>
    cases hfree : S.free s t request with
    | false => exact .stutter _
    | true => exact .refuseCalled error h
  case connected request program => exact .refuseConnected error h
  case inside request working body => exact .refuseInside error h
  all_goals exact .stutter _

theorem moved (s : State τ η ι σ κ β) (e : Event τ η ι κ ε) :
    S.Moved s e (S.step s e).1 (S.effect s e) (S.step s e).2 := by
  cases e with
  | invoke t request =>
    cases h : s.threads t <;> simp only [step, effect, h]
    case idle => exact .invoke h
    all_goals exact .stutter _
  | acquire t => exact S.moved_acquire s t
  | look t => exact S.moved_look s t
  | begin t => exact S.moved_begin s t
  | statement t => exact S.moved_statement s t
  | finish t ending => exact S.moved_finish s t ending
  | refuse t error => exact S.moved_refuse s t error
  | respond t =>
    cases h : s.threads t <;> simp only [step, effect, h]
    case answered request answer served => exact .respond h
    all_goals exact .stutter _
  | crash h ending => exact .crash h ending

theorem moved_next (s : State τ η ι σ κ β) (e : Event τ η ι κ ε) :
    S.Moved s e (S.machine.next s e) (S.effect s e) (S.machine.step s e).2 := S.moved s e

/-! ## What holds in every state -/

section Move

omit [DecidableEq η]

@[simp] theorem move_threads (s : State τ η ι σ κ β) (t u : τ) (thread : Thread ι σ κ β) :
    (move s t thread).threads u = if u = t then thread else s.threads u :=
  Function.update_apply _ _ _ _

@[simp] theorem move_durable (s : State τ η ι σ κ β) (t : τ) (thread : Thread ι σ κ β) :
    (move s t thread).durable = s.durable := rfl

@[simp] theorem move_writing (s : State τ η ι σ κ β) (t : τ) (thread : Thread ι σ κ β) :
    (move s t thread).writing = s.writing := rfl

@[simp] theorem move_mutex (s : State τ η ι σ κ β) (t : τ) (thread : Thread ι σ κ β) :
    (move s t thread).mutex = s.mutex := rfl

end Move

section Lock

omit [DecidableEq τ]

@[simp] theorem lock_threads (s : State τ η ι σ κ β) (t : τ) (request : ι) :
    (S.lock s t request).threads = s.threads := by
  rw [lock]; split <;> rfl

@[simp] theorem lock_durable (s : State τ η ι σ κ β) (t : τ) (request : ι) :
    (S.lock s t request).durable = s.durable := by
  rw [lock]; split <;> rfl

@[simp] theorem lock_writing (s : State τ η ι σ κ β) (t : τ) (request : ι) :
    (S.lock s t request).writing = s.writing := by
  rw [lock]; split <;> rfl

theorem lock_mutex (s : State τ η ι σ κ β) (t : τ) (request : ι) (h : η) :
    (S.lock s t request).mutex h =
      if S.exclusive request ∧ h = S.handle t then some t else s.mutex h := by
  by_cases hexclusive : S.exclusive request <;> simp [lock, hexclusive, Function.update_apply]

end Lock

@[simp] theorem unlock_threads (s : State τ η ι σ κ β) (t : τ) :
    (S.unlock s t).threads = s.threads := by
  rw [unlock]; split <;> rfl

@[simp] theorem unlock_durable (s : State τ η ι σ κ β) (t : τ) :
    (S.unlock s t).durable = s.durable := by
  rw [unlock]; split <;> rfl

@[simp] theorem unlock_writing (s : State τ η ι σ κ β) (t : τ) :
    (S.unlock s t).writing = s.writing := by
  rw [unlock]; split <;> rfl

theorem unlock_mutex (s : State τ η ι σ κ β) (t : τ) (h : η) :
    (S.unlock s t).mutex h =
      if h = S.handle t ∧ s.mutex h = some t then none else s.mutex h := by
  rw [unlock]
  by_cases hh : h = S.handle t
  · subst hh
    split <;> simp_all
  · split <;> simp [hh]

/-- What a thread has where it is. -/
def Placed (s : State τ η ι σ κ β) (t : τ) : Thread ι σ κ β → Prop
  | .idle | .called _ | .answered .. => True
  | .connected request program =>
    (∀ answer, program ≠ .reply answer) ∧ (S.program request).Rest program ∧
      (S.exclusive request → s.mutex (S.handle t) = some t)
  | .inside request _ _ =>
    s.writing = some t ∧ S.writable (S.handle t) ∧
      (∃ first, (S.program request).Rest (.transaction first)) ∧
      (S.exclusive request → s.mutex (S.handle t) = some t)

/-- Who holds the mutexes and the write lock. -/
structure Guarded (s : State τ η ι σ κ β) : Prop where
  placed : ∀ t, S.Placed s t (s.threads t)
  writing : ∀ t, s.writing = some t → (s.threads t).writes
  mutex : ∀ h t, s.mutex h = some t → S.handle t = h ∧ (s.threads t).entered

omit [DecidableEq τ] [DecidableEq η] in
/-- A thread keeps its place as long as it keeps its locks. -/
theorem Placed.of_locks {s s' : State τ η ι σ κ β} {t : τ} {thread : Thread ι σ κ β}
    (h : S.Placed s t thread) (hwriting : s.writing = some t → s'.writing = some t)
    (hmutex : s.mutex (S.handle t) = some t → s'.mutex (S.handle t) = some t) :
    S.Placed s' t thread := by
  cases thread with
  | idle => trivial
  | called => trivial
  | connected request program => exact ⟨h.1, h.2.1, fun hexclusive => hmutex (h.2.2 hexclusive)⟩
  | inside request working body =>
    obtain ⟨hwrites, hwritable, hfirst, hlocked⟩ := h
    exact ⟨hwriting hwrites, hwritable, hfirst, fun hexclusive => hmutex (hlocked hexclusive)⟩
  | answered => trivial

namespace Guarded

variable {S} {s s' : State τ η ι σ κ β} {t : τ} {thread : Thread ι σ κ β} {request : ι}

omit [DecidableEq τ] [DecidableEq η] in
theorem connected (hs : S.Guarded s) (t : τ) (request : ι) (program : Program σ κ β)
    (h : s.threads t = .connected request program) :
    (∀ answer, program ≠ .reply answer) ∧ (S.program request).Rest program ∧
      (S.exclusive request → s.mutex (S.handle t) = some t) := by
  have hplaced := hs.placed t
  rwa [h] at hplaced

omit [DecidableEq τ] [DecidableEq η] in
theorem inside (hs : S.Guarded s) (t : τ) (request : ι) (working : σ) (body : Body σ κ β)
    (h : s.threads t = .inside request working body) :
    s.writing = some t ∧ S.writable (S.handle t) ∧
      (∃ first, (S.program request).Rest (.transaction first)) ∧
      (S.exclusive request → s.mutex (S.handle t) = some t) := by
  have hplaced := hs.placed t
  rwa [h] at hplaced

omit [DecidableEq η] in
/-- One thread goes to another place, and no other thread gets or loses a lock. -/
theorem moves (hs : S.Guarded s) (t : τ) (thread : Thread ι σ κ β)
    (hthreads : ∀ u, s'.threads u = if u = t then thread else s.threads u)
    (hwriting : ∀ u, u ≠ t → (s'.writing = some u ↔ s.writing = some u))
    (hmutex : ∀ h u, u ≠ t → (s'.mutex h = some u ↔ s.mutex h = some u))
    (hplaced : S.Placed s' t thread) (hwrites : s'.writing = some t → thread.writes)
    (hentered : ∀ h, s'.mutex h = some t → S.handle t = h ∧ thread.entered) : S.Guarded s' := by
  refine ⟨fun u => ?_, fun u hu => ?_, fun h u hu => ?_⟩ <;> rw [hthreads] <;> by_cases hut : u = t
  · subst hut
    rwa [if_pos rfl]
  · rw [if_neg hut]
    exact (hs.placed u).of_locks S (hwriting u hut).mpr (hmutex _ u hut).mpr
  · subst hut
    rw [if_pos rfl]
    exact hwrites hu
  · rw [if_neg hut]
    exact hs.writing u ((hwriting u hut).mp hu)
  · subst hut
    rw [if_pos rfl]
    exact hentered h hu
  · rw [if_neg hut]
    exact hs.mutex h u ((hmutex h u hut).mp hu)

omit [DecidableEq η] in
/-- A step of one thread that leaves all locks as they are. -/
theorem moves_only (hs : S.Guarded s) (hplaced : S.Placed s t thread)
    (hwrites : (s.threads t).writes → thread.writes)
    (hentered : (s.threads t).entered → thread.entered) : S.Guarded (move s t thread) :=
  hs.moves t thread (fun u => move_threads s t u thread) (fun _ _ => Iff.rfl)
    (fun _ _ _ => Iff.rfl) hplaced (fun h => hwrites (hs.writing t h))
    fun h hh => (hs.mutex h t hh).imp_right hentered

/-- A call takes the mutex that its request needs. -/
theorem locks (hs : S.Guarded s) (hfree : S.free s t request = true)
    (hcalled : s.threads t = .called request) (hplaced : S.Placed (S.lock s t request) t thread)
    (hentered : thread.entered = true) : S.Guarded (S.lock (move s t thread) t request) := by
  have hunlocked : S.exclusive request → s.mutex (S.handle t) = none := fun hexclusive => by
    simpa [free, hexclusive] using hfree
  refine hs.moves t thread (fun u => ?_) (fun u _ => ?_) (fun h u hu => ?_) ?_ ?_ fun h hh => ?_
  · rw [lock_threads, move_threads]
  · rw [lock_writing, move_writing]
  · rw [lock_mutex, move_mutex]
    split
    · next hlock =>
      rw [hlock.2, hunlocked hlock.1]
      exact ⟨fun heq => absurd (Option.some.inj heq).symm hu, nofun⟩
    · exact Iff.rfl
  · refine hplaced.of_locks S ?_ ?_
    · rw [lock_writing, lock_writing, move_writing]
      exact id
    · rw [lock_mutex, lock_mutex, move_mutex]
      exact id
  · rw [lock_writing, move_writing]
    intro hwriting
    have hwrites := hs.writing t hwriting
    rw [hcalled] at hwrites
    cases hwrites
  · rw [lock_mutex, move_mutex] at hh
    split at hh
    · next hlock => exact ⟨hlock.2.symm, hentered⟩
    · exact ⟨(hs.mutex h t hh).1, hentered⟩

omit [DecidableEq η] in
/-- Its transaction is over. -/
theorem leaves {working : σ} {body : Body σ κ β} (hs : S.Guarded s)
    (hinside : s.threads t = .inside request working body) (durable : σ)
    (hplaced : ∀ s', S.Placed s' t thread)
    (hentered : thread.entered = true) :
    S.Guarded { move s t thread with durable := durable, writing := none } := by
  have hwriting := (hs.inside t _ _ _ hinside).1
  refine hs.moves t thread (fun u => move_threads s t u thread) (fun u hu => ?_)
    (fun _ _ _ => Iff.rfl) (hplaced _) nofun fun h hh => ⟨(hs.mutex h t hh).1, hentered⟩
  rw [hwriting]
  exact ⟨nofun, fun heq => absurd (Option.some.inj heq).symm hu⟩

/-- A thread whose call is answered gives its mutex back. -/
theorem unlocks {answer : β} {served : Bool} (hs : S.Guarded s)
    (hanswered : s.threads t = .answered request answer served) :
    S.Guarded (S.unlock (move s t .idle) t) := by
  refine hs.moves t .idle (fun u => ?_) (fun u _ => ?_) (fun h u hu => ?_) trivial ?_ fun h hh => ?_
  · rw [unlock_threads, move_threads]
  · rw [unlock_writing, move_writing]
  · rw [unlock_mutex, move_mutex]
    split
    · next hlock =>
      rw [hlock.2]
      exact ⟨nofun, fun heq => absurd (Option.some.inj heq).symm hu⟩
    · exact Iff.rfl
  · rw [unlock_writing, move_writing]
    intro hwriting
    have hwrites := hs.writing t hwriting
    rw [hanswered] at hwrites
    cases hwrites
  · rw [unlock_mutex, move_mutex] at hh
    split at hh
    · cases hh
    · next hlock => exact absurd ⟨(hs.mutex h t hh).1.symm, hh⟩ hlock

/-- All threads of a process are gone, with their locks. -/
theorem crashes (hs : S.Guarded s) (h : η) (ending : κ) :
    S.Guarded (S.step s (.crash h ending)).1 := by
  have hwriting : ∀ t, (S.step s (.crash h ending)).1.writing = some t ↔
      s.writing = some t ∧ S.handle t ≠ h := fun t => by
    simp [step, Option.filter_eq_some_iff]
  have hmutex : ∀ k t, (S.step s (.crash h ending)).1.mutex k = some t ↔
      s.mutex k = some t ∧ k ≠ h := fun k t => by
    by_cases hk : k = h <;> simp [step, hk]
  have hthreads : ∀ t, (S.step s (.crash h ending)).1.threads t =
      if S.handle t = h then .idle else s.threads t := fun t => rfl
  refine ⟨fun t => ?_, fun t ht => ?_, fun k t ht => ?_⟩
  · rw [hthreads]
    split
    · trivial
    · next hother =>
      exact (hs.placed t).of_locks S (fun hw => (hwriting t).mpr ⟨hw, hother⟩)
        fun hm => (hmutex _ t).mpr ⟨hm, hother⟩
  · obtain ⟨hw, hother⟩ := (hwriting t).mp ht
    rw [hthreads, if_neg hother]
    exact hs.writing t hw
  · obtain ⟨hm, hother⟩ := (hmutex k t).mp ht
    obtain ⟨hhandle, hentered⟩ := hs.mutex k t hm
    rw [hthreads, if_neg fun heq => hother (hhandle.symm.trans heq)]
    exact ⟨hhandle, hentered⟩

end Guarded

theorem guarded_moved {s s' : State τ η ι σ κ β} {e : Event τ η ι κ ε}
    {x : Option (Effect τ ι κ)} {r : Option (Response τ ι β)} (h : S.Moved s e s' x r)
    (hs : S.Guarded s) : S.Guarded s' := by
  cases h with
  | stutter => exact hs
  | invoke hidle =>
    refine hs.moves_only trivial ?_ ?_ <;>
      · rw [hidle]
        exact nofun
  | acquire hcalled hfree hprogram =>
    refine hs.locks hfree hcalled ⟨hprogram, .all, fun hexclusive => ?_⟩ rfl
    rw [lock_mutex, if_pos ⟨hexclusive, rfl⟩]
  | reply hcalled hfree hprogram =>
    exact hs.locks hfree hcalled trivial rfl
  | look hlook hnext =>
    obtain ⟨-, hrest, hlocked⟩ := hs.connected _ _ _ hlook
    exact hs.moves_only ⟨hnext, .look s.durable hrest, hlocked⟩ (by rw [hlook]; exact nofun)
      fun _ => rfl
  | looked hlook hnext =>
    exact hs.moves_only trivial (by rw [hlook]; exact nofun) fun _ => rfl
  | @begin t request body hbody hnone hwritable =>
    obtain ⟨-, hrest, hlocked⟩ := hs.connected _ _ _ hbody
    refine hs.moves t _ (fun u => move_threads s t u _) (fun u hu => ?_) (fun _ _ _ => Iff.rfl)
      ⟨rfl, hwritable, ⟨body, hrest⟩, hlocked⟩ (fun _ => rfl)
      fun h hh => ⟨(hs.mutex h t hh).1, rfl⟩
    rw [hnone]
    exact ⟨fun heq => absurd (Option.some.inj heq).symm hu, nofun⟩
  | observe hbody =>
    exact hs.moves_only trivial (by rw [hbody]; exact nofun) fun _ => rfl
  | query hquery =>
    exact hs.moves_only (hs.inside _ _ _ _ hquery) (fun _ => rfl) fun _ => rfl
  | write hwrite =>
    exact hs.moves_only (hs.inside _ _ _ _ hwrite) (fun _ => rfl) fun _ => rfl
  | drop _ hdrop => exact hs.leaves hdrop s.durable (fun _ => trivial) rfl
  | commit _ hcommit => exact hs.leaves hcommit _ (fun _ => trivial) rfl
  | refuseCalled error hcalled =>
    exact hs.moves_only trivial (by rw [hcalled]; exact nofun) fun _ => rfl
  | refuseConnected error hconnected =>
    exact hs.moves_only trivial (by rw [hconnected]; exact nofun) fun _ => rfl
  | refuseInside error hinside =>
    exact hs.leaves hinside s.durable (fun _ => trivial) rfl
  | respond hanswered => exact hs.unlocks hanswered
  | crash h ending => exact hs.crashes h ending

theorem guarded_start : S.Guarded S.machine.start where
  placed _ := trivial
  writing _ h := nomatch h
  mutex _ _ h := nomatch h

theorem guarded_stateAt (events : List (Event τ η ι κ ε)) (k : Nat) :
    S.Guarded (S.machine.stateAt events k) :=
  Machine.stateAt_induction (P := fun _ s => S.Guarded s) S.guarded_start
    (fun _ e hs => S.guarded_moved (S.moved_next _ e) hs) events k

end Service

end Machine

end Threads
