import Minisqlite.Lib.Threads

/-!
# No call waits for ever

A thread waits for the mutex of its handle, or for the transaction of somebody else. Who
is waited for can always go on: a transaction needs nothing more, and the holder of a
mutex waits at most for a transaction (`unblocked`).
-/

namespace Threads

open Runs

namespace Service

universe u

variable {τ η ι σ κ β ε : Type u} [DecidableEq τ] [DecidableEq η] (S : Service τ η ι σ κ β ε)

variable {S} {s s' s'' : State τ η ι σ κ β} {t : τ} {request : ι}

/-- A thread goes on with its call, or gets its answer, and the storage works. -/
def Progress (S : Service τ η ι σ κ β ε) : Event τ η ι κ ε → Prop
  | .acquire _ | .look _ | .begin _ | .statement _ | .respond _ => True
  | .finish _ ending => ending = S.done
  | .invoke .. | .refuse .. | .crash .. => False

/-- Where the storage works, a COMMIT is done. -/
theorem ending_of_progress {e : Event τ η ι κ ε} (he : S.Progress e) {x : Effect τ ι κ}
    (hx : S.effect s e = some x) : x.ending = S.done := by
  have hmoved := S.moved s e
  rw [hx] at hmoved
  generalize hy : some x = y at hmoved
  generalize (S.step s e).1 = s', (S.step s e).2 = r at hmoved
  cases hmoved with
  | reply | looked | observe => cases hy; rfl
  | drop | commit => cases hy; exact he
  | crash => exact he.elim
  | _ => cases hy

/-- The threads can get from one state to the other with steps of their calls only. -/
def Goes (S : Service τ η ι σ κ β ε) (s s' : State τ η ι σ κ β) : Prop :=
  ∃ more : List (Event τ η ι κ ε), (∀ e ∈ more, S.Progress e) ∧
    more.foldl S.machine.next s = s'

theorem Goes.refl (s : State τ η ι σ κ β) : S.Goes s s := ⟨[], nofun, rfl⟩

theorem Goes.trans (h : S.Goes s s') (h' : S.Goes s' s'') : S.Goes s s'' := by
  obtain ⟨more, hmore, rfl⟩ := h
  obtain ⟨rest, hrest, rfl⟩ := h'
  refine ⟨more ++ rest, fun e he => ?_, List.foldl_append⟩
  rcases List.mem_append.mp he with he | he
  · exact hmore e he
  · exact hrest e he

theorem Goes.next (e : Event τ η ι κ ε) (he : S.Progress e) :
    S.Goes s (S.machine.next s e) :=
  ⟨[e], by simpa using he, rfl⟩

theorem Goes.guarded (h : S.Goes s s') (hs : S.Guarded s) : S.Guarded s' := by
  obtain ⟨more, -, rfl⟩ := h
  induction more generalizing s with
  | nil => exact hs
  | cons e more ih => exact ih (S.guarded_moved (S.moved_next s e) hs)

/-- A call has been served, and the threads outside of transactions are where they were. -/
structure Served (S : Service τ η ι σ κ β ε) (s s' : State τ η ι σ κ β) (t : τ) (request : ι) :
    Prop where
  goes : S.Goes s s'
  answered : ∃ answer, s'.threads t = .answered request answer true
  mutex : s'.mutex = s.mutex
  others : ∀ u, u ≠ t → (s.threads u).writes = false → s'.threads u = s.threads u

/-- A step of the call before the rest of it. -/
theorem Served.before (e : Event τ η ι κ ε) (he : S.Progress e) {thread : Thread ι σ κ β}
    (hthreads : (S.machine.next s e).threads = Function.update s.threads t thread)
    (hmutex : (S.machine.next s e).mutex = s.mutex)
    (h : S.Served (S.machine.next s e) s' t request) : S.Served s s' t request where
  goes := (Goes.next e he).trans h.goes
  answered := h.answered
  mutex := h.mutex.trans hmutex
  others u hu hwrites := by
    have hsame : (S.machine.next s e).threads u = s.threads u := by
      rw [hthreads, Function.update_of_ne hu]
    rw [h.others u hu (by rw [hsame, hwrites]), hsame]

/-- The last step of a call. -/
theorem Served.last (e : Event τ η ι κ ε) (he : S.Progress e) {answer : β}
    (hthreads : (S.machine.next s e).threads =
      Function.update s.threads t (.answered request answer true))
    (hmutex : (S.machine.next s e).mutex = s.mutex) :
    S.Served s (S.machine.next s e) t request where
  goes := .next e he
  answered := ⟨answer, by rw [hthreads, Function.update_self]⟩
  mutex := hmutex
  others u hu _ := by rw [hthreads, Function.update_of_ne hu]

/-- A transaction can always end. -/
theorem inside_served {working : σ} {body : Body σ κ β}
    (h : s.threads t = .inside request working body) :
    ∃ s', S.Served s s' t request ∧ s'.writing = none := by
  induction body generalizing s working with
  | drop answer =>
    have hstep : S.machine.next s (.finish t S.done) =
        { move s t (.answered request answer true) with writing := none } := by
      simp [machine, Machine.next, step, h]
    exact ⟨_, .last (.finish t S.done) rfl (by rw [hstep, move]) (by rw [hstep, move]),
      by rw [hstep]⟩
  | commit answer =>
    have hstep : S.machine.next s (.finish t S.done) =
        { move s t (.answered request (answer S.done) true) with
          durable := if S.persists S.done then working else s.durable
          writing := none } := by
      simp [machine, Machine.next, step, h]
    exact ⟨_, .last (.finish t S.done) rfl (by rw [hstep, move]) (by rw [hstep, move]),
      by rw [hstep]⟩
  | query next ih =>
    have hstep : S.machine.next s (.statement t) =
        move s t (.inside request working (next working)) := by
      simp [machine, Machine.next, step, h]
    obtain ⟨s', hserved, hwriting⟩ := ih working (s := S.machine.next s (.statement t))
      (by rw [hstep, move_threads, if_pos rfl])
    exact ⟨s', hserved.before (.statement t) trivial (by rw [hstep, move]) (by rw [hstep, move]),
      hwriting⟩
  | write after next ih =>
    have hstep : S.machine.next s (.statement t) = move s t (.inside request after next) := by
      simp [machine, Machine.next, step, h]
    obtain ⟨s', hserved, hwriting⟩ := ih (s := S.machine.next s (.statement t))
      (by rw [hstep, move_threads, if_pos rfl])
    exact ⟨s', hserved.before (.statement t) trivial (by rw [hstep, move]) (by rw [hstep, move]),
      hwriting⟩

/-- A call that has its connection can always be served. -/
theorem connected_served (hs : S.Guarded s) (hwritable : S.writable (S.handle t) = true)
    {program : Program σ κ β} (h : s.threads t = .connected request program) :
    ∃ s', S.Served s s' t request := by
  induction program generalizing s with
  | reply answer => exact absurd rfl ((hs.connected t request _ h).1 answer)
  | look next ih =>
    have hstep : S.machine.next s (.look t) = move s t (settle request (next s.durable)) := by
      simp [machine, Machine.next, step, h]
    rcases S.settle_cases t request (next s.durable) with
      ⟨answer, -, hsettle, -⟩ | ⟨-, hsettle, -⟩
    · rw [hsettle] at hstep
      exact ⟨_, .last (.look t) trivial (by rw [hstep, move]) (by rw [hstep, move])⟩
    · rw [hsettle] at hstep
      obtain ⟨s', hserved⟩ := ih s.durable (s := S.machine.next s (.look t))
        (S.guarded_moved (S.moved_next s _) hs) (by rw [hstep, move_threads, if_pos rfl])
      exact ⟨s', hserved.before (.look t) trivial (by rw [hstep, move]) (by rw [hstep, move])⟩
  | transaction body =>
    -- The transaction of somebody else comes to its end first.
    obtain ⟨s₁, hgoes, hwriting, hmutex, hothers⟩ : ∃ s₁, S.Goes s s₁ ∧ s₁.writing = none ∧
        s₁.mutex = s.mutex ∧ ∀ u, (s.threads u).writes = false → s₁.threads u = s.threads u := by
      cases hwriting : s.writing with
      | none => exact ⟨s, .refl s, hwriting, rfl, fun _ _ => rfl⟩
      | some u =>
        have hwrites := hs.writing u hwriting
        cases hu : s.threads u with
        | inside request' working body' =>
          obtain ⟨s₁, hserved, hnone⟩ := inside_served (S := S) hu
          refine ⟨s₁, hserved.goes, hnone, hserved.mutex, fun v hv => ?_⟩
          refine hserved.others v (fun he => ?_) hv
          rw [he, hwrites] at hv
          cases hv
        | _ => simp [hu, Thread.writes] at hwrites
    have h₁ : s₁.threads t = .connected request (.transaction body) := by
      rw [hothers t (by rw [h]; rfl), h]
    have hstep : S.machine.next s₁ (.begin t) =
        { move s₁ t (.inside request s₁.durable body) with writing := some t } := by
      simp [machine, Machine.next, step, h₁, hwriting, hwritable]
    obtain ⟨s', hserved, -⟩ := inside_served (S := S) (s := S.machine.next s₁ (.begin t))
      (by rw [hstep]; exact (move_threads ..).trans (if_pos rfl))
    have hserved := hserved.before (.begin t) trivial (by rw [hstep, move]) (by rw [hstep, move])
    refine ⟨s', hgoes.trans hserved.goes, hserved.answered, hserved.mutex.trans hmutex, ?_⟩
    intro u hu hwrites
    rw [hserved.others u hu (by rw [hothers u hwrites, hwrites]), hothers u hwrites]

/-- The thread that holds the mutex of a handle can always give it back. -/
theorem unlocked (hs : S.Guarded s) (hwritable : S.writable (S.handle t) = true)
    (h : s.threads t = .called request) :
    ∃ s', S.Goes s s' ∧ s'.threads t = .called request ∧ S.free s' t request = true := by
  cases hmutex : s.mutex (S.handle t) with
  | none => exact ⟨s, .refl s, h, by simp [free, hmutex]⟩
  | some u =>
    obtain ⟨hhandle, hentered⟩ := hs.mutex _ u hmutex
    have hut : t ≠ u := by
      rintro rfl
      rw [h] at hentered
      cases hentered
    -- Its call is over, or it is served first.
    obtain ⟨s₁, request', answer, served, hgoes, hanswered, hsame, hcalled⟩ :
        ∃ s₁ request' answer served, S.Goes s s₁ ∧
          s₁.threads u = .answered request' answer served ∧ s₁.mutex = s.mutex ∧
          s₁.threads t = .called request := by
      cases hu : s.threads u with
      | idle | called => rw [hu] at hentered; cases hentered
      | connected request' program =>
        obtain ⟨s₁, hserved⟩ := connected_served hs (hhandle ▸ hwritable) hu
        obtain ⟨answer, hanswer⟩ := hserved.answered
        exact ⟨s₁, request', answer, true, hserved.goes, hanswer, hserved.mutex,
          by rw [hserved.others t hut (by rw [h]; rfl), h]⟩
      | inside request' working body =>
        obtain ⟨s₁, hserved, -⟩ := inside_served (S := S) hu
        obtain ⟨answer, hanswer⟩ := hserved.answered
        exact ⟨s₁, request', answer, true, hserved.goes, hanswer, hserved.mutex,
          by rw [hserved.others t hut (by rw [h]; rfl), h]⟩
      | answered request' answer served => exact ⟨s, request', answer, served, .refl s, hu, rfl, h⟩
    have hstep : S.machine.next s₁ (.respond u) = S.unlock (move s₁ u .idle) u := by
      simp [machine, Machine.next, step, hanswered]
    refine ⟨_, hgoes.trans (.next (.respond u) trivial), ?_, ?_⟩
    · rw [hstep, unlock_threads, move_threads, if_neg hut, hcalled]
    · have hheld : (move s₁ u .idle).mutex (S.handle t) = some u := by
        rw [move_mutex, hsame, hmutex]
      rw [hstep, free, unlock_mutex, if_pos ⟨hhandle.symm, hheld⟩]
      simp

/-- A call through a handle that can write can always be served. -/
theorem pending_served (hs : S.Guarded s) (hwritable : S.writable (S.handle t) = true)
    (h : (s.threads t).pending = some request) :
    ∃ s' answer, S.Goes s s' ∧ s'.threads t = .answered request answer true := by
  cases ht : s.threads t with
  | idle | answered => rw [ht] at h; cases h
  | connected _ program =>
    rw [ht] at h
    cases h
    obtain ⟨s', hserved⟩ := connected_served hs hwritable ht
    obtain ⟨answer, hanswer⟩ := hserved.answered
    exact ⟨s', answer, hserved.goes, hanswer⟩
  | inside _ working body =>
    rw [ht] at h
    cases h
    obtain ⟨s', hserved, -⟩ := inside_served (S := S) ht
    obtain ⟨answer, hanswer⟩ := hserved.answered
    exact ⟨s', answer, hserved.goes, hanswer⟩
  | called _ =>
    rw [ht] at h
    cases h
    obtain ⟨s₁, hgoes, hcalled, hfree⟩ := unlocked hs hwritable ht
    have hstep : S.machine.next s₁ (.acquire t) =
        S.lock (move s₁ t (settle request (S.program request))) t request := by
      simp [machine, Machine.next, step, hcalled, hfree]
    have hgoes := hgoes.trans (.next (.acquire t) trivial)
    have hthread : (S.machine.next s₁ (.acquire t)).threads t =
        settle request (S.program request) := by
      rw [hstep, lock_threads, move_threads, if_pos rfl]
    rcases S.settle_cases t request (S.program request) with
      ⟨answer, -, hsettle, -⟩ | ⟨-, hsettle, -⟩
    · exact ⟨_, answer, hgoes, hthread.trans hsettle⟩
    · obtain ⟨s', hserved⟩ := connected_served (hgoes.guarded hs) hwritable
        (hthread.trans hsettle)
      obtain ⟨answer, hanswer⟩ := hserved.answered
      exact ⟨s', answer, hgoes.trans hserved.goes, hanswer⟩

theorem respond_reply {answer : β} {served : Bool}
    (h : s.threads t = .answered request answer served) :
    (S.machine.step s (.respond t)).2 = some ⟨t, request, answer, served⟩ := by
  show (S.step s (.respond t)).2 = _
  simp only [step, h]

/-- No call waits for ever: whatever the threads have done so far, they can go on with
their calls so that this one is served. -/
theorem unblocked {events : List (Event τ η ι κ ε)} (hwritable : S.writable (S.handle t) = true)
    (h : ((S.machine.after events).threads t).pending = some request) :
    ∃ more answer, (∀ e ∈ more, S.Progress e) ∧
      S.machine.replyAt (events ++ (more ++ [.respond t])) (events ++ more).length =
        some (some ⟨t, request, answer, true⟩) := by
  have hs := S.guarded_stateAt events events.length
  rw [Machine.stateAt_length] at hs
  obtain ⟨_, answer, ⟨more, hmore, rfl⟩, hanswered⟩ := pending_served hs hwritable h
  refine ⟨more, answer, hmore, ?_⟩
  have hstate : S.machine.stateAt (events ++ (more ++ [.respond t])) (events ++ more).length =
      more.foldl S.machine.next (S.machine.after events) := by
    rw [← List.append_assoc, Machine.stateAt, List.take_left' rfl, Machine.after,
      List.foldl_append, ← Machine.after]
  have hlast : (events ++ (more ++ [.respond t]))[(events ++ more).length]? =
      some (.respond t) := by
    rw [← List.append_assoc, List.getElem?_concat_length]
  rw [Machine.replyAt, hstate, hlast, Option.map_some, respond_reply hanswered]

end Service

end Threads
