import SqlTemplate.Proofs.Engine.Snapshot
import SqlTemplate.Proofs.Sql.Adapter
import SqlTemplate.Proofs.Sql.Connection
/-!
Connections can take back a transaction.

A connection keeps the database with which the open transaction began. So it is an engine with
transactions (`transactional`), for all statements but those that begin or end one in their text: a
statement puts the database of its effect in the place of the connection's, or leaves it as it is.
-/

namespace SqlTemplate.Sql

open Engine (Fault Outcome Transactional)

/-- A connection to a database on which nothing is checked and nothing was done yet. -/
def Connection.fresh (db : Database) : Connection := ⟨db, none, 0, false⟩

/-- The database after a statement that succeeds. -/
def databaseAfter (db : Database) (st : Engine.Statement) : Database :=
  match (Connection.fresh db).prepare st.sql with
  | .error _ => db
  | .ok p =>
    match Connection.library.bindAll p st.binds with
    | .error _ => db
    | .ok q =>
      match q.statement.effect db q.data with
      | .error _ => db
      | .ok e => e.database

namespace Connection

variable {c d : Connection} {p q : Prepared} {sql : String} {binds : List Engine.Bind}

theorem prepare_fresh (h : c.prepare sql = .ok p) : (fresh c.database).prepare sql = .ok p := by
  unfold prepare at h ⊢
  obtain ⟨r, hread, h⟩ := exists_of_bind_eq_ok h
  obtain ⟨columns, hcolumns, h⟩ := exists_of_bind_eq_ok h
  obtain ⟨_, _, h⟩ := exists_of_bind_eq_ok h
  have htarget : (fresh c.database).checkTarget r.1 = .ok () := by
    unfold checkTarget
    split <;> rfl
  have hread' : read (fun name => ((fresh c.database).database.find? name).isSome) sql = .ok r := hread
  have hcolumns' : r.1.resolve (fresh c.database).database = .ok columns := hcolumns
  simp only [hread', hcolumns', htarget, bind, Except.bind]
  exact h

theorem bound_statement (h : library.Bound p q) : q.statement = p.statement := by
  induction h with
  | refl p => rfl
  | bind h _ ih =>
    refine ih.trans ?_
    simp only [library, Prepared.bind] at h
    split at h <;> cases h
    rfl

theorem library_perform_ok {o : Outcome} (h : library.perform q binds c = (.ok o, d)) :
    ∃ rows, c.perform q.statement q.data = (.ok rows, d) := by
  rcases Library.perform_ok h with ⟨_, hrun⟩ | ⟨_, ⟨rows, hquery⟩, _⟩
  · exact (run_ok hrun).2
  · exact ⟨rows, query_ok hquery⟩

theorem library_perform_error {f : Fault} (h : library.perform q binds c = (.error f, d)) :
    ∃ problem, c.perform q.statement q.data = (.error problem, d) := by
  unfold Library.perform at h
  split at h
  · split at h <;> cases h
    exact run_error ‹_›
  · split at h <;> cases h
    exact query_error ‹_›

theorem runs_plain {st : Engine.Statement} (hst : isPlain st.sql = true)
    (h : library.Runs st c q d) :
    d = c ∧ q.statement.isTransaction = false ∧
      ∃ p, c.prepare st.sql = .ok p ∧ library.bindAll p st.binds = .ok q := by
  obtain ⟨p, hcompile, hbind⟩ := h.filled
  obtain ⟨hprepare, rfl⟩ := compile_ok hcompile
  refine ⟨rfl, ?_, p, hprepare, hbind⟩
  rw [bound_statement (Library.bound_of_bindAll hbind)]
  exact isTransaction_of_read hst (read_of_prepare hprepare)

/-- Connections are an engine with transactions. -/
theorem transactional : Transactional engine Connection.database Connection.saved databaseAfter
    (fun st => isPlain st.sql = true) where
  execute_ok {st o c d} hst h := by
    obtain ⟨q, _, hruns, hperform⟩ := Library.execute_ok h
    obtain ⟨rfl, hs, p, hprepare, hbind⟩ := runs_plain hst hruns
    obtain ⟨rows, hperform⟩ := library_perform_ok hperform
    cases hperform ▸ performs _ q.statement q.data with
    | moves htransaction _ =>
      rw [hs] at htransaction
      cases htransaction
    -- It was prepared and filled as `databaseAfter` does, and has the effect that it takes.
    | takes _ he =>
      exact ⟨by simp only [databaseAfter, prepare_fresh hprepare, hbind, he, took], rfl⟩
  execute_error {st f c d} hst h := by
    rcases Library.runs_or_refused library st c with ⟨q, t, hruns⟩ | ⟨g, hrefused | hrefused⟩
    · have hexecute := Library.execute_of_runs hruns
      obtain ⟨rfl, hs, p, hprepare, hbind⟩ := runs_plain hst hruns
      obtain ⟨problem, hperform⟩ := library_perform_error (hexecute.symm.trans h)
      cases hperform ▸ performs _ q.statement q.data with
      | moves htransaction _ =>
        rw [hs] at htransaction
        cases htransaction
      | refuses _ _ => exact refused_database _ q.statement
    · cases hrefused.symm.trans h
      exact ⟨rfl, rfl⟩
    · cases hrefused.symm.trans h
      rw [show (library.compile st.sql c).2 = c from compile_state st.sql c]
      exact ⟨rfl, rfl⟩
  start_ok {c d} h := by
    rw [engine_start, start] at h
    split at h <;> cases h
    exact ⟨rfl, rfl⟩
  commit_ok {c d} h := by
    rw [engine_commit, commit] at h
    split at h
    · cases h
    · split at h <;> cases h
      rfl
  commit_error {f db c d} hs h := by
    simp only [engine_commit, commit, hs] at h
    split at h <;> cases h
    exact hs
  rollback {db c} hs :=
    ⟨{ c with database := db, saved := none },
      by simp only [engine_rollback, Connection.rollback, hs]; rfl, rfl, rfl⟩

end Connection

end SqlTemplate.Sql
