import Minisqlite.Effects.Operation

/-!
# When a job row can be written

The CHECKs of `jobs`, and that the rows which the store writes meet them.

* `check_iff`: the CHECKs. `check_terminal`, `check_nonterminal`, `check_lease`,
  `check_expiry`: the row of each SET clause.
* `updateJob_total`, `setTerminal_total`, `setNonterminal_total`: so a write of a
  stored row succeeds.
-/

namespace Minisqlite

open Tables

namespace TotalLemmas

/-! ## The CHECKs -/

theorem check_iff {job : JobRow} : job.check = true ↔ 0 < job.spec.maxAttempts ∧
    (job.state = .leased →
      job.leaseToken.isSome ∧ job.workerId.isSome ∧ job.leaseExpiresAtMs.isSome) ∧
    (job.state ≠ .leased →
      job.leaseToken = none ∧ job.workerId = none ∧ job.leaseExpiresAtMs = none) ∧
    (job.state = .retryWait → job.retryAfterMs.isSome) ∧
    (job.terminalAtMs.isSome ↔ job.state.isTerminal = true) := by
  have hbeq : (job.state.isTerminal == job.terminalAtMs.isSome) = true ↔
      (job.terminalAtMs.isSome ↔ job.state.isTerminal = true) := by
    cases job.state.isTerminal <;> cases job.terminalAtMs <;> simp
  simp only [JobRow.check, Bool.and_eq_true, Bool.or_eq_true, decide_eq_true_eq, hbeq,
    Option.isNone_iff_eq_none, and_assoc, imp_iff_not_or, not_not]

section Checks

variable {job : JobRow} (h : job.check = true)
include h

/-- The new row is terminal and has its timestamp. -/
theorem check_terminal {state : JobState} (hstate : state.isTerminal = true) (now : Int64)
    (tid : Id) (digest : Option Bytes) (summary : Option String) :
    ((JobUpdate.terminal state now tid digest summary).set job).check = true := by
  refine check_iff.mpr ⟨(check_iff.mp h).1, ?_, fun _ => ⟨rfl, rfl, rfl⟩, ?_, fun _ => hstate,
    fun _ => rfl⟩
  · rintro (rfl : state = .leased)
    cases hstate
  · rintro (rfl : state = .retryWait)
    cases hstate

theorem check_nonterminal {state : JobState} {retryAfterMs : Option Int64}
    (hjob : job.state.isTerminal = false) (hstate : state.isTerminal = false)
    (hleased : state ≠ .leased) (hretry : state = .retryWait → retryAfterMs.isSome) (tid : Id) :
    ((JobUpdate.nonterminal state retryAfterMs tid).set job).check = true := by
  obtain ⟨hmax, -, -, -, hterminal⟩ := check_iff.mp h
  refine check_iff.mpr ⟨hmax, fun he => absurd he hleased, fun _ => ⟨rfl, rfl, rfl⟩, hretry, ?_⟩
  show job.terminalAtMs.isSome ↔ state.isTerminal = true
  rw [hterminal, hjob, hstate]

theorem check_lease (hjob : job.state.isTerminal = false) (token : Id) (workerId : String)
    (expiryMs : Int64) (tid : Id) :
    ((JobUpdate.lease token workerId expiryMs tid).set job).check = true := by
  obtain ⟨hmax, -, -, -, hterminal⟩ := check_iff.mp h
  refine check_iff.mpr ⟨hmax, fun _ => ⟨rfl, rfl, rfl⟩, fun he => absurd rfl he, nofun, ?_⟩
  show job.terminalAtMs.isSome ↔ _
  rw [hterminal, hjob]
  rfl

theorem check_expiry (hleased : job.state = .leased) (newExpiryMs : Int64) :
    ((JobUpdate.expiry newExpiryMs).set job).check = true := by
  obtain ⟨hmax, hlease, -, hretry, hterminal⟩ := check_iff.mp h
  exact check_iff.mpr ⟨hmax, fun _ => ⟨(hlease hleased).1, (hlease hleased).2.1, rfl⟩,
    fun hno => absurd hleased hno, hretry, hterminal⟩

end Checks

/-! ## Statements -/

section Statements

variable {db : Db} {job : JobRow} (found : db.job job.spec.jobId = some job)
include found

/-- An `UPDATE` of one row succeeds when the CHECKs accept the new row. -/
theorem updateJob_total {ε : Type} [FromStorage ε] {u : JobUpdate}
    (hcheck : (u.set job).check = true) :
    ∃ db', (updateJob db job.spec.jobId u : Except ε Db) = .ok db' := by
  obtain ⟨jobs, hjobs⟩ : ∃ jobs, db.jobs.update
      (fun row => decide (row.spec.jobId = job.spec.jobId)) u.set u.keeps = some jobs := by
    refine Table.update_isSome fun row hrow hid => ?_
    have hsame := job_of_mem hrow
    rw [of_decide_eq_true hid, found] at hsame
    rw [← Option.some.inj hsame]
    exact hcheck
  exact ⟨{ db with jobs := jobs }, by rw [updateJob, hjobs]; rfl⟩

theorem check_of_found : job.check = true := db.jobs.checked job (job_eq_some.mp found).1

theorem setTerminal_total {state : JobState} (hstate : state.isTerminal = true) (now : Int64)
    (tid : Id) (digest : Option Bytes) (summary : Option String) :
    ∃ db', setTerminal db job state now tid digest summary = .ok db' := by
  obtain ⟨db₁, hupdate⟩ := updateJob_total (ε := Error) found
    (check_terminal (check_of_found found) hstate now tid digest summary)
  exact ⟨_, by rw [setTerminal, hupdate]; rfl⟩

theorem setNonterminal_total {state : JobState} {retryAfterMs : Option Int64}
    (hjob : job.state.isTerminal = false) (hstate : state.isTerminal = false)
    (hleased : state ≠ .leased) (hretry : state = .retryWait → retryAfterMs.isSome) (tid : Id) :
    ∃ db', setNonterminal db job.spec.jobId state retryAfterMs tid = .ok db' :=
  updateJob_total found
    (check_nonterminal (check_of_found found) hjob hstate hleased hretry tid)

end Statements

end TotalLemmas

end Minisqlite
