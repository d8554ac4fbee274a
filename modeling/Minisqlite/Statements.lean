import Minisqlite.Statements.Claim

/-!
# The store that runs its SQL

`TableStore` runs `commit`, `claim_jobs` and `extend_lease` as SQL statements on the tables of
its file, where the `ControlPlaneStore` of this development works on typed tables.

1. `answer_agrees`: one call, and `table_store_refines`: every run. The replies are the same,
   and the file holds the state of the typed store.
2. `sessions_keep_store`: the life of a file, from its creation on. Processes open it, call
   the store and die; the migrations run when they are due.
-/

namespace Minisqlite.TableWrites

open Sql Tables TableReads Runs Migrations

/-! ## 1. Calls -/

/-- The two stores have the same contents. -/
structure StoresPlane (a : TableStore) (b : ControlPlaneStore) : Prop where
  stores : Stores a.file b.db
  writer : a.writer = b.writer

section Calls

variable {coerce : Affinity → Value → Value} {a : TableStore} {b : ControlPlaneStore}

theorem connection_agrees (h : Stores a.file b.db) : StoresPlane a.connection b.connection :=
  ⟨h, rfl⟩

/-- A COMMIT keeps what was staged, or what was there. -/
theorem finish_agrees (h : Stores a.file b.db) {file : Sql.Database} {db : Db}
    (hstaged : Stores file db) (step : CommitStep) :
    StoresPlane (a.finish file step).1 (b.finish db step).1 := by
  cases step with
  | done => exact ⟨hstaged, rfl⟩
  | lost persisted storageError =>
    cases persisted with
    | false => exact ⟨h, rfl⟩
    | true => exact ⟨hstaged, rfl⟩

theorem commit_agrees [ColumnErrors] (hcoerce : Settled coerce) (h : Stores a.file b.db)
    (limits : Limits) (batch : CommitBatch) (step : CommitStep) :
    StoresPlane (a.commit coerce limits batch step).1 (b.commit limits batch step).1 ∧
      (a.commit coerce limits batch step).2 = (b.commit limits batch step).2 := by
  have hstage := stageCommit_agrees hcoerce h limits batch
  unfold TableStore.commit ControlPlaneStore.commit
  generalize stageCommit coerce limits a.file batch = x,
    Minisqlite.stageCommit limits b.db batch = y at hstage ⊢
  cases hstage with
  | error e => exact ⟨connection_agrees h, rfl⟩
  | ok hstaged =>
    cases hstaged with
    | resubmitted receipt => exact ⟨connection_agrees h, rfl⟩
    | staged hfile receipt =>
      cases step with
      | done => exact ⟨⟨hfile, rfl⟩, rfl⟩
      | lost persisted storageError =>
        exact ⟨finish_agrees h hfile (.lost persisted storageError), rfl⟩

theorem claimJobs_agrees [ColumnErrors] (hcoerce : Settled coerce) (h : Stores a.file b.db)
    (request : ClaimRequest) (entropy : Entropy) (step : CommitStep) :
    StoresPlane (a.claimJobs coerce request entropy step).1 (b.claimJobs request entropy step).1 ∧
      (a.claimJobs coerce request entropy step).2 = (b.claimJobs request entropy step).2 := by
  have hstage := stageClaim_agrees hcoerce h request entropy
  unfold TableStore.claimJobs ControlPlaneStore.claimJobs
  generalize stageClaim coerce a.file request entropy = x,
    Minisqlite.stageClaim b.db request entropy = y at hstage ⊢
  cases hstage with
  | error e => exact ⟨connection_agrees h, rfl⟩
  | ok hstaged =>
    cases hstaged with
    | noop => exact ⟨connection_agrees h, rfl⟩
    | staged hfile transactionId jobs =>
      cases step with
      | done => exact ⟨⟨hfile, rfl⟩, by cases jobs <;> rfl⟩
      | lost persisted storageError =>
        exact ⟨finish_agrees h hfile (.lost persisted storageError), rfl⟩

theorem extendLease_agrees [ColumnErrors] (hcoerce : Settled coerce) (h : Stores a.file b.db)
    (jobId leaseToken : Id) (newExpiryMs nowMs : Int64) (step : CommitStep) :
    StoresPlane (a.extendLease coerce jobId leaseToken newExpiryMs nowMs step).1
        (b.extendLease jobId leaseToken newExpiryMs nowMs step).1 ∧
      (a.extendLease coerce jobId leaseToken newExpiryMs nowMs step).2 =
        (b.extendLease jobId leaseToken newExpiryMs nowMs step).2 := by
  have hextend := applyExtendLease_agrees hcoerce h ⟨jobId, leaseToken, newExpiryMs⟩ nowMs
  unfold TableStore.extendLease ControlPlaneStore.extendLease
  generalize applyExtendLease coerce a.file ⟨jobId, leaseToken, newExpiryMs⟩ nowMs = x,
    Minisqlite.applyExtendLease b.db ⟨jobId, leaseToken, newExpiryMs⟩ nowMs = y at hextend ⊢
  cases hextend with
  | error e => exact ⟨connection_agrees h, rfl⟩
  | ok hab =>
    rename_i extended extended'
    obtain ⟨file, receipt⟩ := extended
    obtain ⟨db, _⟩ := extended'
    obtain ⟨hfile, rfl⟩ := hab
    cases step with
    | done => exact ⟨⟨hfile, rfl⟩, rfl⟩
    | lost persisted storageError =>
      exact ⟨finish_agrees h hfile (.lost persisted storageError), rfl⟩

/-- One call. Neither store looks at what its writer was. -/
theorem answer_agrees [ColumnErrors] (hcoerce : Settled coerce) (h : Stores a.file b.db)
    (call : Call) :
    StoresPlane (a.answer coerce call).1 (b.answer call).1 ∧
      (a.answer coerce call).2 = .ok (b.answer call).2 := by
  cases call with
  | commit limits batch step =>
    obtain ⟨hplane, hreply⟩ := commit_agrees hcoerce h limits batch step
    exact ⟨hplane, congrArg (fun r => Except.ok (Reply.commit r)) hreply⟩
  | claimJobs request entropy step =>
    obtain ⟨hplane, hreply⟩ := claimJobs_agrees hcoerce h request entropy step
    exact ⟨hplane, congrArg (fun r => Except.ok (Reply.claimJobs r)) hreply⟩
  | extendLease jobId leaseToken newExpiryMs nowMs step =>
    obtain ⟨hplane, hreply⟩ :=
      extendLease_agrees hcoerce h jobId leaseToken newExpiryMs nowMs step
    exact ⟨hplane, congrArg (fun r => Except.ok (Reply.extendLease r)) hreply⟩
  | recoverTransaction transactionId =>
    refine ⟨connection_agrees h, ?_⟩
    exact congrArg (Except.map Reply.recoverTransaction)
      (h.answer (.recoverTransaction transactionId))
  | recoverClaim transactionId nowMs =>
    refine ⟨connection_agrees h, ?_⟩
    exact congrArg (Except.map Reply.recoverClaim) (h.answer (.recoverClaim transactionId nowMs))

end Calls

/-- The store that runs its SQL as a machine, on the tables that the migrations have made. -/
def tableStore [ColumnErrors] (coerce : Affinity → Value → Value) :
    Machine TableStore Call (Except Error Reply) :=
  ⟨⟨tables Db.empty, .live⟩, TableStore.answer coerce⟩

/-- Every run of the store that runs its SQL is one of the typed store: each call gets the same
reply, no statement or query fails where the typed store does not, and the file has the
same rows in the end. -/
theorem table_store_refines [ColumnErrors] {coerce : Affinity → Value → Value}
    (hcoerce : Settled coerce) (calls : List Call) :
    (∀ k, (tableStore coerce).replyAt calls k = (controlPlane.replyAt calls k).map .ok) ∧
      ((tableStore coerce).after calls).file.schema = currentSchema ∧
      ∀ t ∈ storeTables, ((tableStore coerce).after calls).file.rows t.name =
        ((t.contents (controlPlane.after calls).db).rows.map t.encode) := by
  have hplane : ∀ calls,
      StoresPlane ((tableStore coerce).after calls) (controlPlane.after calls) := by
    intro calls
    induction calls using List.reverseRecOn with
    | nil => exact ⟨stores_tables Db.empty, rfl⟩
    | append_singleton calls call ih =>
      rw [Machine.after_append_singleton, Machine.after_append_singleton]
      exact (answer_agrees hcoerce ih.stores call).1
  refine ⟨fun k => ?_, (hplane calls).stores.schema,
    fun t ht => ((hplane calls).stores.holds ht).rows⟩
  unfold Machine.replyAt
  rw [Option.map_map]
  refine Option.map_congr fun call _ => ?_
  exact (answer_agrees hcoerce (hplane (calls.take k)).stores call).2

theorem table_store_refines_sample :
    letI := Sample.columnErrors
    (tableStore fun _ v => v).replyAt [Sample.enqueue .requiresReconciliation,
      Sample.claim 20 5 .done] 1 =
      some (.ok (.claimJobs (.ok (.committed ⟨.ofU128 21,
        [⟨Sample.jobId, "mail", "alice", [1], "worker", .ofU128 20, 1, 105, none⟩], []⟩)))) := by
  let := Sample.columnErrors
  exact ((table_store_refines (fun _ _ _ => rfl) _).1 1).trans (by decide)

/-! ## 2. Sessions -/

/-- What happens to a file: a process opens it, or makes a call of the store that it has open.
A process that dies is one whose calls are followed by the next opening. -/
inductive Visit
  | opening (opening : TableReads.Opening)
  | call (call : Call)

/-- The file, and the writer of the store that is open on it. -/
structure Session where
  file : Migrations.Database Sql.Database
  writer : Option Writer

inductive VisitReply
  | opened (result : Except OpenStop Unit)
  | answered (result : Except Error Reply)
  /-- No store is open. -/
  | closed

namespace Session

variable [ColumnErrors] (coerce : Affinity → Value → Value) (session : Session)

def visit : Visit → Session × VisitReply
  | .opening opening =>
    let (result, file) := openStore coerce opening.limits opening.connect opening.env session.file
    (⟨file, if result.isOk then some .live else none⟩, .opened result)
  | .call call =>
    match session.writer with
    | none => (session, .closed)
    | some writer =>
      let (store, reply) := TableStore.answer coerce ⟨session.file.contents, writer⟩ call
      (⟨{ session.file with contents := store.file }, some store.writer⟩, .answered reply)

/-- The calls that reach a store. -/
def reached : Visit → List Call
  | .opening _ => []
  | .call call => if session.writer.isSome then [call] else []

end Session

/-- A file that is new. -/
def sessions [ColumnErrors] (coerce : Affinity → Value → Value) :
    Machine Session Visit VisitReply :=
  ⟨⟨⟨.empty, none⟩, none⟩, Session.visit coerce⟩

/-- The file has the rows of the store, whatever migrations it has; where a store is open on it,
it has them all. -/
structure HoldsSession (db : Db) (session : Session) : Prop where
  holds : ∃ done, HoldsStore db done session.file
  current : session.writer.isSome = true → HoldsStore db migrations session.file

section Sessions

variable {coerce : Affinity → Value → Value} {db : Db}

theorem stores_of_holds {file : Migrations.Database Sql.Database}
    (h : HoldsStore db migrations file) : Stores file.contents db := by
  obtain ⟨-, -, hcontents⟩ := h
  rw [show migrations = [toVersionOne, toVersionTwo] from rfl] at hcontents
  cases hcontents with
  | current hschema hrelation =>
    have hcurrent : file.contents.schema = currentSchema := by
      unfold currentSchema
      rw [hschema]
      rfl
    refine ⟨hcurrent, fun t ht => ?_⟩
    have hholds := (storeTables_spec t ht).2 db
    have hname := congrFun hrelation t.name
    rw [hholds.relation, Database.relation, hcurrent, show currentSchema.table t.name = _ from
      hholds.table] at hname
    exact (congrArg Relation.rows (Option.some.inj hname)).trans hholds.rows.symm

theorem holds_of_stores {file : Migrations.Database Sql.Database} {contents : Sql.Database}
    {db' : Db} (h : HoldsStore db migrations file) (hcontents : Stores contents db') :
    HoldsStore db' migrations { file with contents := contents } := by
  have hschema : defineAll (initial ++ upgrade) .empty = .ok contents.schema := by
    rw [hcontents.schema]
    rfl
  exact ⟨h.isPrefix, h.recorded, .current hschema hcontents.relation⟩

/-- An opening, wherever it stops. -/
theorem opening_session [ColumnErrors] (hcoerce : Settled coerce) (hresolves : Resolves db)
    {session : Session} (h : HoldsSession db session) (opening : TableReads.Opening) :
    HoldsSession db (session.visit coerce (.opening opening)).1 := by
  obtain ⟨done, hdone⟩ := h.holds
  obtain ⟨⟨done', -, hfile, hall⟩, -⟩ := OpeningLemmas.opening_keeps hcoerce hresolves
    opening.limits opening.connect opening.env hdone
  refine ⟨⟨done', hfile⟩, fun hopen => ?_⟩
  cases hresult : (openStore coerce opening.limits opening.connect opening.env session.file).1 with
  | error e =>
    have hwriter : (session.visit coerce (.opening opening)).1.writer =
        if (openStore coerce opening.limits opening.connect opening.env session.file).1.isOk then
          some .live else none := rfl
    rw [hwriter, hresult] at hopen
    cases hopen
  | ok =>
    obtain rfl := hall hresult
    exact hfile

/-- A call of an open store. -/
theorem call_session [ColumnErrors] (hcoerce : Settled coerce) {store : ControlPlaneStore}
    {session : Session}
    (h : HoldsSession store.db session) (hopen : session.writer.isSome = true) (call : Call) :
    HoldsSession (store.answer call).1.db (session.visit coerce (.call call)).1 ∧
      (session.visit coerce (.call call)).2 = .answered (.ok (store.answer call).2) := by
  have hfile := h.current hopen
  obtain ⟨writer, hwriter⟩ := Option.isSome_iff_exists.mp hopen
  obtain ⟨hplane, hreply⟩ := answer_agrees (a := ⟨session.file.contents, writer⟩) hcoerce
    (stores_of_holds hfile) call
  have hafter := holds_of_stores hfile hplane.stores
  have hvisit : session.visit coerce (.call call) =
      (⟨{ session.file with
          contents := (TableStore.answer coerce ⟨session.file.contents, writer⟩ call).1.file },
        some (TableStore.answer coerce ⟨session.file.contents, writer⟩ call).1.writer⟩,
        .answered (TableStore.answer coerce ⟨session.file.contents, writer⟩ call).2) := by
    unfold Session.visit
    rw [hwriter]
  rw [hvisit, hreply]
  exact ⟨⟨⟨migrations, hafter⟩, fun _ => hafter⟩, rfl⟩

theorem holdsSession_after [ColumnErrors] (hcoerce : Settled coerce) (visits : List Visit) :
    HoldsSession (controlPlane.after ((sessions coerce).log Session.reached visits)).db
      ((sessions coerce).after visits) := by
  have hstart : HoldsSession Db.empty ⟨⟨.empty, none⟩, none⟩ :=
    ⟨⟨[], ⟨List.nil_prefix, rfl, .empty rfl⟩⟩, nofun⟩
  refine Machine.log_induction (M := sessions coerce) (P := fun calls session =>
    HoldsSession (controlPlane.after calls).db session) hstart (fun visits visit ih => ?_) visits
  generalize (sessions coerce).log Session.reached visits = calls at ih
  cases visit with
  | opening opening =>
    rw [show Session.reached _ (.opening opening) = [] from rfl, List.append_nil]
    exact opening_session hcoerce (resolves_after calls) ih opening
  | call call =>
    by_cases hopen : ((sessions coerce).after visits).writer.isSome = true
    · rw [show Session.reached _ (.call call) = [call] from if_pos hopen,
        Machine.after_append_singleton]
      exact (call_session hcoerce ih hopen call).1
    · have hclosed : (sessions coerce).next ((sessions coerce).after visits) (.call call) =
          (sessions coerce).after visits := by
        show (Session.visit coerce _ (.call call)).1 = _
        unfold Session.visit
        rw [Option.not_isSome_iff_eq_none.mp hopen]
      rw [show Session.reached _ (.call call) = [] from if_neg hopen, List.append_nil, hclosed]
      exact ih

end Sessions

/-- The life of a file, from its creation on: processes open it, each opening stopped anywhere or
not, call the store that they have open, and die; a COMMIT may be lost either way. At any time
the file has the rows of the state in which the typed store is after the calls that have
reached a store. An opening that is not stopped succeeds, and a store that is open answers
every read and the next call as the typed store does. -/
theorem sessions_keep_store [ColumnErrors] {coerce : Affinity → Value → Value}
    (hcoerce : Settled coerce) (visits : List Visit) :
    let plane := controlPlane.after ((sessions coerce).log Session.reached visits)
    let session := (sessions coerce).after visits
    (∃ done, HoldsStore plane.db done session.file) ∧
    (∀ limits connect env, limits.validate = .ok () → connect = .ok () → (∀ e, ¬ env.Faults e) →
      (openStore coerce limits connect env session.file).1 = .ok ()) ∧
    (session.writer.isSome = true →
      (∀ read : DataRead, read.answer session.file.contents = plane.db.read read) ∧
      ∀ call, (session.visit coerce (.call call)).2 = .answered (.ok (plane.answer call).2)) := by
  intro plane session
  have hsession : HoldsSession plane.db session := holdsSession_after hcoerce visits
  refine ⟨hsession.holds, fun limits connect env hlimits hconnect hquiet => ?_, fun hopen => ?_⟩
  · obtain ⟨done, hdone⟩ := hsession.holds
    exact (OpeningLemmas.opening_keeps hcoerce (resolves_after _) limits connect env hdone).2
      hlimits hconnect hquiet
  · exact ⟨(stores_of_holds (hsession.current hopen)).answer,
      fun call => (call_session hcoerce hsession hopen call).2⟩

/-- The first opening dies, the second does not; then a job is enqueued. -/
theorem sessions_keep_store_sample :
    letI := Sample.columnErrors
    (openStore (fun _ v => v) .default (.ok ()) Migrations.Sample.quiet
      ((sessions fun _ v => v).after [.opening ⟨.default, .ok (), Migrations.Sample.dying⟩,
        .opening ⟨.default, .ok (), Migrations.Sample.quiet⟩,
        .call (Minisqlite.Sample.enqueue .requiresReconciliation)]).file).1 = .ok () := by
  let := Sample.columnErrors
  exact (sessions_keep_store (fun _ _ _ => rfl) _).2.1 _ _ _ (by decide) rfl
    (by rintro e ⟨statement, ⟨⟩⟩)

end Minisqlite.TableWrites
