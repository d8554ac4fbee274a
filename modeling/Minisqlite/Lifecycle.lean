import Mathlib.Logic.Relation
import Minisqlite.JobRows

/-!
# The life of a job

A stored job only ever evolves: its state follows the edges of
`can_transition_to`, what it was enqueued as and its place stay, and a terminal
row is final. Every row step is such an evolution, whoever takes it, and
evolutions compose; so a batch may chain several of them.

* `Evolves`: the relation, a preorder that every row step respects.
* `job_lifecycle`: over runs, with what it means for competing operations.
-/

namespace Minisqlite

open Tables Runs

/-- The state can be reached along the edges of the transition table. -/
def JobState.Reaches : JobState → JobState → Prop :=
  Relation.ReflTransGen fun a b => a.canTransitionTo b = true

/-- What a row may become. -/
structure Evolves (job job' : JobRow) : Prop where
  spec : job'.spec = job.spec
  enqueueSequence : job'.enqueueSequence = job.enqueueSequence
  path : job.state.Reaches job'.state
  final : job.state.isTerminal = true → job' = job

namespace Evolves

theorem refl (job : JobRow) : Evolves job job := ⟨rfl, rfl, .refl, fun _ => rfl⟩

theorem trans {a b c : JobRow} (hab : Evolves a b) (hbc : Evolves b c) : Evolves a c where
  spec := hbc.spec.trans hab.spec
  enqueueSequence := hbc.enqueueSequence.trans hab.enqueueSequence
  path := Relation.ReflTransGen.trans hab.path hbc.path
  final h := by
    obtain rfl := hab.final h
    exact hbc.final h

theorem of_step {job : JobRow} {u : JobUpdate} (h : RowStep job u) : Evolves job (u.set job) where
  spec := u.spec job
  enqueueSequence := u.enqueueSequence job
  path := .single h.transition
  final hterminal := by
    rw [h.active] at hterminal
    cases hterminal

end Evolves

namespace LifecycleLemmas

/-- The row is still stored, and is what it was or has evolved from it. -/
def EvolvedIn (job : JobRow) (db : Db) : Prop :=
  ∃ job', db.job job.spec.jobId = some job' ∧ Evolves job job'

theorem evolved_invariant (job : JobRow) : RowInvariant (EvolvedIn job) :=
  rowInvariant_of_job fun _ _ hstep hevolves => hevolves.trans (.of_step hstep)

end LifecycleLemmas

open LifecycleLemmas

/-- Between two points of a run a stored job evolves. -/
theorem job_evolves (calls : List Call) {i k : Nat} (hik : i ≤ k) {jobId : Id} {job : JobRow}
    (h : (controlPlane.stateAt calls i).db.job jobId = some job) :
    ∃ job', (controlPlane.stateAt calls k).db.job jobId = some job' ∧ Evolves job job' := by
  obtain rfl := job_id h
  refine Machine.stateAt_rel (M := controlPlane) (R := fun s t : ControlPlaneStore =>
    EvolvedIn job s.db → EvolvedIn job t.db) (fun _ h => h) (fun _ _ _ hst htu h => htu (hst h))
    (fun store call _ => (next_effect store call).rows (evolved_invariant job)) calls hik
    ⟨job, h, .refl job⟩

/-- Call `i` of the run makes the job terminal. -/
def EndsJob (calls : List Call) (i : Nat) (jobId : Id) : Prop :=
  ∃ job job', (controlPlane.stateAt calls i).db.job jobId = some job ∧
    job.state.isTerminal = false ∧
    (controlPlane.stateAt calls (i + 1)).db.job jobId = some job' ∧ job'.state.isTerminal = true

/-- A terminal row never changes again. -/
theorem job_final (calls : List Call) {i k : Nat} (hik : i ≤ k) {jobId : Id} {job : JobRow}
    (h : (controlPlane.stateAt calls i).db.job jobId = some job)
    (hterminal : job.state.isTerminal = true) :
    (controlPlane.stateAt calls k).db.job jobId = some job := by
  obtain ⟨job', hjob', hevolves⟩ := job_evolves calls hik h
  rw [hjob', hevolves.final hterminal]

/-- Of two calls that end a job, neither is earlier than the other. -/
theorem not_endsJob_twice {calls : List Call} {i j : Nat} {jobId : Id} (hi : EndsJob calls i jobId)
    (hj : EndsJob calls j jobId) : ¬ i < j := by
  intro hij
  obtain ⟨_, ended, -, -, hended, hterminal⟩ := hi
  obtain ⟨job, _, hjob, hactive, -, -⟩ := hj
  rw [job_final calls hij hended hterminal] at hjob
  rw [← Option.some.inj hjob, hterminal] at hactive
  cases hactive

/-- An operation on a terminal job fails. -/
theorem applyOperation_terminal {batch : CommitBatch} {tx : OpenBatch} {op : Operation} {jobId : Id}
    {job : JobRow} (hjob : tx.db.job jobId = some job) (hterminal : job.state.isTerminal = true)
    (about : op.jobId = some jobId) : ∃ e, applyOperation batch tx op = .error e := by
  cases happly : applyOperation batch tx op with
  | error e => exact ⟨e, rfl⟩
  | ok tx' =>
    have hchange := applyOperation_change happly jobId
    rw [hjob] at hchange
    generalize tx'.db.job jobId = after at hchange
    cases hchange with
    | same other => exact absurd about other
    | step _ step =>
      rw [(RowStep.operation step).active] at hterminal
      cases hterminal

/-- The life of a job. Each call moves the state of each stored job along the
edges of `can_transition_to`, if at all, and keeps the row, what the job was
enqueued as and its sequence. A terminal row is the same row ever after, so at
most one call ends a job; and an operation on a job that has ended, in a batch of
its own or after the operation that ended it, fails. -/
theorem job_lifecycle (calls : List Call) (jobId : Id) :
    (∀ i job, (controlPlane.stateAt calls i).db.job jobId = some job →
      ∃ job', (controlPlane.stateAt calls (i + 1)).db.job jobId = some job' ∧
        job'.spec = job.spec ∧ job'.enqueueSequence = job.enqueueSequence ∧
        job.state.Reaches job'.state) ∧
    (∀ i k job, i ≤ k → (controlPlane.stateAt calls i).db.job jobId = some job →
      job.state.isTerminal = true → (controlPlane.stateAt calls k).db.job jobId = some job) ∧
    (∀ i j, EndsJob calls i jobId → EndsJob calls j jobId → i = j) ∧
    ∀ batch tx op job, tx.db.job jobId = some job → job.state.isTerminal = true →
      op.jobId = some jobId → ∃ e, applyOperation batch tx op = .error e := by
  refine ⟨fun i job hjob => ?_, fun i k job hik hjob => job_final calls hik hjob,
    fun i j hi hj => ?_, fun batch tx op job hjob => applyOperation_terminal hjob⟩
  · obtain ⟨job', hjob', hevolves⟩ := job_evolves calls (Nat.le_succ i) hjob
    exact ⟨job', hjob', hevolves.spec, hevolves.enqueueSequence, hevolves.path⟩
  · have hij := not_endsJob_twice hi hj
    have hji := not_endsJob_twice hj hi
    omega

end Minisqlite
