import Minisqlite.Store.Events

/-!
# Listing jobs

`list_jobs` and `list_jobs_page` of `store/jobs.rs`, with `into_info`. A page
goes by the enqueue sequence, which its records do not carry; the cursor that it
returns does.
-/

namespace Minisqlite

open Tables

/-- `JobInfo`. -/
structure JobInfo where
  jobId : Id
  spec : JobSpec
  state : JobState
  attempt : UInt32
  leaseExpiresAtMs : Option Int64
  workerId : Option String
  retryAfterMs : Option Int64
  terminalAtMs : Option Int64
  resultDigest : Option Bytes
  errorSummary : Option String
deriving DecidableEq

/-- `JobRow::into_info`. -/
def JobRow.info (job : JobRow) : JobInfo where
  jobId := job.spec.jobId
  spec := job.spec
  state := job.state
  attempt := job.attempt
  leaseExpiresAtMs := job.leaseExpiresAtMs
  workerId := job.workerId
  retryAfterMs := job.retryAfterMs
  terminalAtMs := job.terminalAtMs
  resultDigest := job.resultDigest
  errorSummary := job.errorSummary

/-- `(?1 IS NULL OR queue = ?1) AND (?2 IS NULL OR state = ?2)`. -/
def JobRow.listed (queue : Option String) (state : Option JobState) (job : JobRow) : Bool :=
  queue.all (fun queue => decide (job.spec.queue = queue)) &&
    state.all fun state => decide (job.state = state)

/-- `list_jobs`. -/
def listJobs (db : Db) (queue : Option String) (state : Option JobState) (limit : UInt64) :
    List JobInfo :=
  let rows := db.jobs.rows.filter (JobRow.listed queue state)
  let ordered := rows.insertionSort fun a b => a.enqueueSequence ≤ b.enqueueSequence
  (limitRows limit ordered).map JobRow.info

/-- `i64::try_from`. -/
def tryFromI64 (n : UInt64) : Option Int64 := if n.toNat < 2 ^ 63 then some n.toInt64 else none

/-- `list_jobs_page`: the page, and the cursor after its last row. -/
def listJobsPage (db : Db) (queue : Option String) (state : Option JobState)
    (afterSequence limit : UInt64) : Except Error (List JobInfo × UInt64) :=
  match tryFromI64 afterSequence, tryFromI64 limit with
  | none, _ => invalid s!"jobs_page after_sequence {afterSequence} exceeds the supported range"
  | _, none => invalid s!"jobs_page limit {limit} exceeds the supported range"
  | some after, some _ =>
    let rows := db.jobs.rows.filter fun job =>
      decide (after < job.enqueueSequence) && job.listed queue state
    let ordered := rows.insertionSort fun a b => a.enqueueSequence ≤ b.enqueueSequence
    let page := limitRows limit ordered
    .ok (page.map JobRow.info,
      (page.getLast?.map fun job => job.enqueueSequence.toUInt64).getD afterSequence)

end Minisqlite
