import SqlTemplate.Proofs.Sql.Reading
import SqlTemplate.Sql.Connection
/-!
What preparing and running a statement does to a connection.

What is proved:
  1. `read_of_prepare`: what is prepared was read from the text, and nothing is bound to its slots.
  2. `performs`: what running a statement does. A transaction is begun or ended, or the effect of the
     statement is taken as a whole, or it is refused.
  3. `engine_start`, `engine_commit`, `engine_rollback`: the calls of an engine for these.
-/

namespace SqlTemplate.Sql

theorem exists_of_bind_eq_ok {ε α β : Type} {x : Except ε α} {f : α → Except ε β} {b : β}
    (h : x >>= f = .ok b) : ∃ a, x = .ok a ∧ f a = .ok b := by
  cases x with
  | error e => cases h
  | ok a => exact ⟨a, rfl, h⟩

namespace Connection

/-! ## Before a statement runs -/

variable {c d : Connection} {sql : String} {p : Prepared} {data : List Datum}

theorem read_of_prepare (h : c.prepare sql = .ok p) :
    read (fun name => (c.database.find? name).isSome) sql = .ok (p.statement, p.slots) := by
  unfold prepare at h
  obtain ⟨⟨s, slots⟩, hread, h⟩ := exists_of_bind_eq_ok h
  obtain ⟨columns, _, h⟩ := exists_of_bind_eq_ok h
  obtain ⟨_, _, h⟩ := exists_of_bind_eq_ok h
  cases h
  exact hread

theorem compile_ok (h : compile sql c = (.ok p, d)) : c.prepare sql = .ok p ∧ d = c := by
  unfold compile at h
  split at h <;> cases h
  exact ⟨‹_›, rfl⟩

theorem compile_state (sql : String) (c : Connection) : (compile sql c).2 = c := by
  unfold compile
  split <;> rfl

/-! ## When a statement runs -/

theorem refused_database (c : Connection) (s : Statement) :
    (c.refused s).database = c.database ∧ (c.refused s).saved = c.saved := by
  unfold refused
  split <;> exact ⟨rfl, rfl⟩

theorem start_changes (c : Connection) : c.start.2.changes = c.changes := by
  unfold start
  split <;> rfl

theorem commit_changes (c : Connection) : c.commit.2.changes = c.changes := by
  unfold commit
  split
  · rfl
  · split <;> rfl

theorem rollback_changes (c : Connection) : c.rollback.2.changes = c.changes := by
  unfold rollback
  split <;> rfl

def took (c : Connection) (s : Statement) (e : Effect) : Connection :=
  { c with database := e.database, changes := if s.isCounted then e.changed else c.changes }

/-- What running a statement answers and does. -/
inductive Performs (c : Connection) (s : Statement) (data : List Datum) :
    Except Problem (List (List Datum)) × Connection → Prop
  | moves {answer : Except Problem (List (List Datum))} {d : Connection}
    (hs : s.isTransaction = true) (h : d.changes = c.changes) : Performs c s data (answer, d)
  | refuses (q : Problem) (hs : s.isTransaction = false) :
    Performs c s data (.error q, c.refused s)
  | takes {e : Effect} (hs : s.isTransaction = false) (h : s.effect c.database data = .ok e) :
    Performs c s data (.ok e.rows, c.took s e)

theorem performs (c : Connection) (s : Statement) (data : List Datum) :
    Performs c s data (c.perform s data) := by
  unfold perform
  split
  · exact .moves rfl (start_changes c)
  · exact .moves rfl (commit_changes c)
  · exact .moves rfl (rollback_changes c)
  · rename_i hstart hcommit hrollback
    have hs : s.isTransaction = false := by
      cases s with
      | start => exact absurd rfl hstart
      | commit => exact absurd rfl hcommit
      | rollback => exact absurd rfl hrollback
      | _ => rfl
    split
    · exact .refuses _ hs
    · rename_i e he
      split
      · exact .refuses _ hs
      · exact .takes hs he

theorem query_ok {rows : List (List Datum)} (h : query p c = (.ok rows, d)) :
    c.perform p.statement p.data = (.ok rows, d) := by
  unfold query at h
  split at h <;> cases h
  assumption

theorem query_error {f : Failure} (h : query p c = (.error f, d)) :
    ∃ q, c.perform p.statement p.data = (.error q, d) := by
  unfold query at h
  split at h <;> cases h
  exact ⟨_, ‹_›⟩

theorem query_state (p : Prepared) (c : Connection) :
    (query p c).2 = (c.perform p.statement p.data).2 := by
  unfold query
  split <;> simp only [*]

theorem run_state (p : Prepared) (c : Connection) :
    (run p c).2 = (c.perform p.statement p.data).2 := by
  rw [← query_state, run]
  split <;> simp only [*]

theorem run_ok {n : Nat} (h : run p c = (.ok n, d)) :
    n = d.changes ∧ ∃ rows, c.perform p.statement p.data = (.ok rows, d) := by
  unfold run at h
  split at h <;> cases h
  exact ⟨rfl, _, query_ok ‹_›⟩

theorem run_error {f : Failure} (h : run p c = (.error f, d)) :
    ∃ q, c.perform p.statement p.data = (.error q, d) := by
  unfold run at h
  split at h <;> cases h
  exact query_error ‹_›

/-! ## Transactions -/

theorem firstStatement_start : firstStatement "BEGIN TRANSACTION".toList =
    ([⟨.word, "BEGIN".toList, " ".toList, 0⟩, ⟨.word, "TRANSACTION".toList, [], 6⟩],
      ⟨.stop, [], [], 17⟩) := by
  decide +kernel

theorem firstStatement_commit : firstStatement "COMMIT".toList =
    ([⟨.word, "COMMIT".toList, [], 0⟩], ⟨.stop, [], [], 6⟩) := by
  decide +kernel

theorem firstStatement_rollback : firstStatement "ROLLBACK".toList =
    ([⟨.word, "ROLLBACK".toList, [], 0⟩], ⟨.stop, [], [], 8⟩) := by
  decide +kernel

theorem prepare_start (c : Connection) :
    c.prepare "BEGIN TRANSACTION" = .ok ⟨.start, [], [], []⟩ := by
  unfold prepare read
  rw [firstStatement_start]
  rfl

theorem prepare_commit (c : Connection) : c.prepare "COMMIT" = .ok ⟨.commit, [], [], []⟩ := by
  unfold prepare read
  rw [firstStatement_commit]
  rfl

theorem prepare_rollback (c : Connection) : c.prepare "ROLLBACK" = .ok ⟨.rollback, [], [], []⟩ := by
  unfold prepare read
  rw [firstStatement_rollback]
  rfl

theorem runText_of_prepare (h : c.prepare sql = .ok p) : runText sql c = run p c := by
  simp only [runText, compile, h]

def told {α : Type} (r : Except Problem α × Connection) : Except Engine.Fault Unit × Connection :=
  match r with
  | (.error q, d) => (.error (q.failure "").fault, d)
  | (.ok _, d) => (.ok (), d)

theorem command_of_prepare (h : c.prepare sql = .ok p) :
    library.command sql c = told (c.perform p.statement p.data) := by
  have hrun : library.runText sql c = run p c := runText_of_prepare h
  simp only [Library.command, hrun, run, query]
  rcases c.perform p.statement p.data with ⟨_ | _, _⟩ <;> rfl

theorem told_map {α β : Type} (f : α → β) (r : Except Problem α) (d : Connection) :
    told (r.map f, d) = told (r, d) := by
  cases r <;> rfl

theorem engine_start (c : Connection) : engine.start c = told c.start :=
  (command_of_prepare (prepare_start c)).trans (told_map _ _ _)

theorem engine_commit (c : Connection) : engine.commit c = told c.commit :=
  (command_of_prepare (prepare_commit c)).trans (told_map _ _ _)

theorem engine_rollback (c : Connection) : engine.rollback c = told c.rollback :=
  (command_of_prepare (prepare_rollback c)).trans (told_map _ _ _)

end Connection

end SqlTemplate.Sql
