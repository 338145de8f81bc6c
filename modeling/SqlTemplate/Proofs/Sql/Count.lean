import SqlTemplate.Proofs.Sql.Adapter
import SqlTemplate.Proofs.Sql.Connection
/-!
The numbers of changed rows that executions report.

A library keeps one counter for all statements on a connection: a statement that inserts, updates or
deletes rows sets it, and any other one leaves it (`Library.Counting`). What is proved:
  1. `changes_afterCalls`: what is known of the counter after a run of calls.
  2. `execute_rowsAffected`: a statement that changes rows reports what it changed itself, and one that
     reads rows reports none; any other one reports what the counter held before it.
  3. `Connection.counting`: connections are such a library.
  4. `create_reports_rows`: so a table is made with a report of rows that were put in before.
-/

namespace SqlTemplate

/-! ## Calls -/

namespace Engine

variable {σ : Type}

def afterCall (engine : Engine σ) (s : σ) : Call → σ
  | .execute st => (engine.execute st s).2
  | .start => (engine.start s).2
  | .commit => (engine.commit s).2
  | .rollback => (engine.rollback s).2

def afterCalls (engine : Engine σ) (s : σ) (calls : List Call) : σ := calls.foldl engine.afterCall s

end Engine

namespace Sql

open Engine (Call Fault Outcome)

namespace Library

variable {σ π : Type} {lib : Library σ π} {counts : π → Bool} {altered : π → σ → Nat}
  {st : Engine.Statement} {s t u : σ} {q : π}

/-- What is taken of a library as given. The statements that `counts` picks out insert, update or
delete rows, and `altered` is the number of rows that a statement changes when it is run. -/
structure Counting (lib : Library σ π) (counts : π → Bool) (altered : π → σ → Nat) : Prop where
  altered_other {q : π} (hq : counts q = false) (s : σ) : altered q s = 0
  isReadOnly {q : π} (hq : counts q = true) : lib.isReadOnly q = false
  /-- What a statement that is run returns is the counter. -/
  run_returns {q : π} {s t : σ} {n : Nat} (h : lib.run q s = (.ok n, t)) : n = lib.changes t
  run_counted {q : π} {s t : σ} {n : Nat} (hq : counts q = true) (h : lib.run q s = (.ok n, t)) :
    lib.changes t = altered q s
  query_counted {q : π} {s t : σ} {rows : List (List Datum)} (hq : counts q = true)
    (h : lib.query q s = (.ok rows, t)) : lib.changes t = altered q s
  /-- What changes no rows leaves the counter as it was. -/
  run_other {q : π} (hq : counts q = false) (s : σ) : lib.changes (lib.run q s).2 = lib.changes s
  query_other {q : π} (hq : counts q = false) (s : σ) :
    lib.changes (lib.query q s).2 = lib.changes s
  compile (sql : String) (s : σ) : lib.changes (lib.compile sql s).2 = lib.changes s
  runText {sql : String} (hsql : sql ∈ ["BEGIN TRANSACTION", "COMMIT", "ROLLBACK"]) (s : σ) :
    lib.changes (lib.runText sql s).2 = lib.changes s

/-! ## Runs -/

/-- The statement that an execution runs. -/
def ran? (lib : Library σ π) (st : Engine.Statement) (s : σ) : Option π :=
  match firstAssoc? st.binds, (lib.compile st.sql s).1 with
  | none, .ok p => (lib.bindAll p st.binds).toOption
  | _, _ => none

theorem Runs.ran? (h : lib.Runs st s q t) : lib.ran? st s = some q := by
  obtain ⟨p, hcompile, hbind⟩ := h.filled
  simp only [Library.ran?, h.unassociated, hcompile, hbind, Except.toOption]

theorem runs_of_ran? (h : lib.ran? st s = some q) : ∃ t, lib.Runs st s q t := by
  unfold Library.ran? at h
  split at h
  · rename_i p hassoc hcompile
    cases hbind : lib.bindAll p st.binds with
    | error f =>
      rw [hbind] at h
      cases h
    | ok r =>
      rw [hbind] at h
      cases h
      exact ⟨_, hassoc, p, Prod.ext hcompile rfl, hbind⟩
  · cases h

/-- What is known of the counter after a call, where `n` is what was known before it: a statement that
changes rows sets it to what it reports, and one of these that fails leaves nothing known. -/
def knownAfter (lib : Library σ π) (counts : π → Bool) (s : σ) (n : Option Nat) : Call → Option Nat
  | .execute st =>
    if (lib.ran? st s).any counts then (lib.execute st s).1.toOption.map (·.rowsAffected) else n
  | _ => n

/-- What is known of the counter after a run of calls. -/
def lastReport? (lib : Library σ π) (counts : π → Bool) (s : σ) (n : Option Nat) :
    List Call → Option Nat
  | [] => n
  | call :: calls =>
    lastReport? lib counts (lib.engine.afterCall s call) (lib.knownAfter counts s n call) calls

section
variable (hlib : lib.Counting counts altered)
include hlib

theorem Counting.changes_compiled (h : lib.Runs st s q t) : lib.changes t = lib.changes s := by
  obtain ⟨p, hcompile, -⟩ := h.filled
  have hcounter := hlib.compile st.sql s
  rwa [hcompile] at hcounter

theorem Counting.perform_other (hq : counts q = false) (binds : List Engine.Bind) (s : σ) :
    lib.changes (lib.perform q binds s).2 = lib.changes s := by
  rw [perform_state]
  split
  · exact hlib.run_other hq s
  · exact hlib.query_other hq s

/-- A statement that changes rows reports how many it changed, and leaves this in the counter. -/
theorem Counting.perform_counted (hq : counts q = true) {binds : List Engine.Bind} {o : Outcome}
    (h : lib.perform q binds s = (.ok o, t)) :
    o.rowsAffected = altered q s ∧ lib.changes t = altered q s := by
  rcases perform_ok h with ⟨_, hrun⟩ | ⟨_, ⟨rows, hquery⟩, hrows⟩
  · have hcounter := hlib.run_counted hq hrun
    exact ⟨(hlib.run_returns hrun).trans hcounter, hcounter⟩
  · have hcounter := hlib.query_counted hq hquery
    rw [hlib.isReadOnly hq, if_neg Bool.false_ne_true] at hrows
    exact ⟨hrows.trans hcounter, hcounter⟩

/-- A statement that changes no rows reports none if it only reads and its answer has columns, and
else what the counter holds. -/
theorem Counting.perform_uncounted (hq : counts q = false) {binds : List Engine.Bind} {o : Outcome}
    (h : lib.perform q binds s = (.ok o, t)) :
    o.rowsAffected =
      if lib.columns q ≠ [] ∧ lib.isReadOnly q = true then 0 else lib.changes s := by
  have hcounter : lib.changes t = lib.changes s := by
    have hother := hlib.perform_other hq binds s
    rwa [h] at hother
  rcases perform_ok h with ⟨hcolumns, hrun⟩ | ⟨hcolumns, -, hrows⟩
  · rw [if_neg fun hreads => hreads.1 hcolumns, hlib.run_returns hrun, hcounter]
  · rw [hrows, hcounter]
    simp only [hcolumns, ne_eq, not_false_eq_true, true_and]

theorem Counting.changes_refused (hran : lib.ran? st s = none) :
    lib.changes (lib.execute st s).2 = lib.changes s := by
  rcases runs_or_refused lib st s with ⟨q, t, hruns⟩ | ⟨f, hrefused | hrefused⟩
  · rw [hruns.ran?] at hran
    cases hran
  · rw [hrefused]
  · rw [hrefused]
    exact hlib.compile st.sql s

theorem Counting.changes_execute {n : Option Nat} (hn : ∀ k ∈ n, lib.changes s = k)
    (st : Engine.Statement) :
    ∀ k ∈ lib.knownAfter counts s n (.execute st), lib.changes (lib.execute st s).2 = k := by
  intro k hk
  simp only [knownAfter] at hk
  cases hran : lib.ran? st s with
  | none =>
    rw [hran] at hk
    exact (hlib.changes_refused hran).trans (hn k hk)
  | some q =>
    obtain ⟨t, hruns⟩ := runs_of_ran? hran
    have hexecute := execute_of_runs hruns
    rw [hran, Option.any_some] at hk
    cases hq : counts q with
    | true =>
      rw [hq, if_pos rfl, hexecute] at hk
      rcases hperform : lib.perform q st.binds t with ⟨f | o, u⟩ <;> rw [hperform] at hk <;> cases hk
      obtain ⟨hreport, hcounter⟩ := hlib.perform_counted hq hperform
      rw [hexecute, hperform]
      exact hcounter.trans hreport.symm
    | false =>
      rw [hq, if_neg Bool.false_ne_true] at hk
      rw [hexecute, hlib.perform_other hq, hlib.changes_compiled hruns, hn k hk]

theorem Counting.changes_command {sql : String} (hsql : sql ∈ ["BEGIN TRANSACTION", "COMMIT", "ROLLBACK"])
    (s : σ) : lib.changes (lib.command sql s).2 = lib.changes s := by
  rw [← hlib.runText hsql s, command]
  split <;> simp only [*]

/-- A call leaves in the counter what is known of it. -/
theorem Counting.changes_afterCall {n : Option Nat} (hn : ∀ k ∈ n, lib.changes s = k) (call : Call) :
    ∀ k ∈ lib.knownAfter counts s n call, lib.changes (lib.engine.afterCall s call) = k := by
  cases call with
  | execute st => exact hlib.changes_execute hn st
  | start => exact fun k hk => (hlib.changes_command (by decide) s).trans (hn k hk)
  | commit => exact fun k hk => (hlib.changes_command (by decide) s).trans (hn k hk)
  | rollback => exact fun k hk => (hlib.changes_command (by decide) s).trans (hn k hk)

/-- A run of calls leaves in the counter what its last statement that changes rows reported. -/
theorem Counting.changes_afterCalls (calls : List Call) {n : Option Nat}
    (hn : ∀ k ∈ n, lib.changes s = k) :
    ∀ k ∈ lib.lastReport? counts s n calls, lib.changes (lib.engine.afterCalls s calls) = k := by
  induction calls generalizing s n with
  | nil => exact hn
  | cons call calls ih => exact ih (hlib.changes_afterCall hn call)

end

/-- Of every execution that succeeds in a run of calls: a statement that inserts, updates or deletes
rows reports how many it changed itself, and one that only reads rows reports none. Any other one
reports what the counter held before the call, although it changed no rows; this is what the last
statement that changed rows reported. So a report is the statement's own just if it is one of the
first two or if the counter held zero. -/
theorem execute_rowsAffected (hlib : lib.Counting counts altered) (s₀ : σ) (calls : List Call)
    {o : Outcome} (hs : s = lib.engine.afterCalls s₀ calls)
    (h : lib.execute st s = (.ok o, u)) :
    ∃ q t, lib.Runs st s q t ∧
      (counts q = true → o.rowsAffected = altered q t) ∧
      (counts q = false → altered q t = 0 ∧ o.rowsAffected =
        if lib.columns q ≠ [] ∧ lib.isReadOnly q = true then 0 else lib.changes s) ∧
      (∀ n ∈ lib.lastReport? counts s₀ (some (lib.changes s₀)) calls, lib.changes s = n) ∧
      (o.rowsAffected = altered q t ↔ counts q = true ∨
        (lib.columns q ≠ [] ∧ lib.isReadOnly q = true) ∨ lib.changes s = 0) := by
  obtain ⟨q, t, hruns, hperform⟩ := execute_ok h
  have hcompiled := hlib.changes_compiled hruns
  have hcounted (hq : counts q = true) : o.rowsAffected = altered q t :=
    (hlib.perform_counted hq hperform).1
  have hother (hq : counts q = false) : altered q t = 0 ∧ o.rowsAffected =
      if lib.columns q ≠ [] ∧ lib.isReadOnly q = true then 0 else lib.changes s :=
    ⟨hlib.altered_other hq t, hcompiled ▸ hlib.perform_uncounted hq hperform⟩
  refine ⟨q, t, hruns, hcounted, hother, hs ▸ hlib.changes_afterCalls calls (by rintro _ ⟨⟩; rfl), ?_⟩
  cases hq : counts q with
  | true => exact iff_of_true (hcounted hq) (.inl rfl)
  | false =>
    obtain ⟨hnone, hreport⟩ := hother hq
    rw [hnone, hreport]
    split
    · rename_i hreads
      exact iff_of_true rfl (.inr (.inl hreads))
    · rename_i hreads
      simp only [Bool.false_eq_true, hreads, false_or]

end Library

/-! ## Connections -/

namespace Connection

def counts (p : Prepared) : Bool := p.statement.isCounted

/-- The number of rows that a statement puts in, changes or takes out. -/
def altered (p : Prepared) (c : Connection) : Nat :=
  if p.statement.isCounted then
    match p.statement.effect c.database p.data with
    | .ok e => e.changed
    | .error _ => 0
  else 0

variable {c d : Connection} {s : Statement} {p : Prepared} {data : List Datum}

theorem isCounted_of_isTransaction (hs : s.isTransaction = true) : s.isCounted = false := by
  cases s with
  | start | commit | rollback => rfl
  | _ => cases hs

theorem Performs.changes_other {answer : Except Problem (List (List Datum))}
    (h : Performs c s data (answer, d)) (hs : s.isCounted = false) : d.changes = c.changes := by
  cases h with
  | moves _ h => exact h
  | refuses q _ => simp only [refused, hs, Bool.false_eq_true, if_false]
  | takes _ _ => simp only [took, hs, Bool.false_eq_true, if_false]

theorem changes_perform (hs : s.isCounted = false) (c : Connection) (data : List Datum) :
    (c.perform s data).2.changes = c.changes := (performs c s data).changes_other hs

theorem changes_counted {rows : List (List Datum)} (hp : counts p = true)
    (h : c.perform p.statement p.data = (.ok rows, d)) : d.changes = altered p c := by
  have hcounted : p.statement.isCounted = true := hp
  cases h ▸ performs c p.statement p.data with
  | moves htransaction _ =>
    rw [isCounted_of_isTransaction htransaction] at hcounted
    cases hcounted
  | takes _ he => simp only [took, altered, hcounted, he, if_true]

/-- A connection keeps a count of the rows that were changed last. -/
theorem counting : library.Counting counts altered where
  altered_other {p} hp c := if_neg (Bool.eq_false_iff.mp hp)
  isReadOnly {p} hp := by
    have hcounted : p.statement.isCounted = true := hp
    have hreads : p.statement.isQuery = false := by
      cases hs : p.statement with
      | insert | update | delete => rfl
      | _ =>
        rw [hs] at hcounted
        cases hcounted
    exact hreads
  run_returns h := (run_ok h).1
  run_counted hp h := by
    obtain ⟨_, _, hperform⟩ := run_ok h
    exact changes_counted hp hperform
  query_counted hp h := changes_counted hp (query_ok h)
  run_other {p} hp c := (congrArg changes (run_state p c)).trans (changes_perform hp c p.data)
  query_other {p} hp c := (congrArg changes (query_state p c)).trans (changes_perform hp c p.data)
  compile sql c := congrArg changes (compile_state sql c)
  runText {sql} hsql c := by
    have hprepared : ∃ p, c.prepare sql = .ok p ∧ p.statement.isCounted = false := by
      simp only [List.mem_cons, List.not_mem_nil, or_false] at hsql
      rcases hsql with rfl | rfl | rfl
      · exact ⟨_, prepare_start c, rfl⟩
      · exact ⟨_, prepare_commit c, rfl⟩
      · exact ⟨_, prepare_rollback c, rfl⟩
    obtain ⟨p, hprepare, hp⟩ := hprepared
    have hrun : library.runText sql c = run p c := runText_of_prepare hprepare
    rw [hrun]
    exact (congrArg changes (run_state p c)).trans (changes_perform hp c p.data)

/-- Of three rows that were put into a new table, an update changes two. -/
theorem execute_rowsAffected_update :
    let calls : List Call :=
      [.execute ⟨"create table t (a integer, b text)", []⟩,
        .execute ⟨"insert into t values (1, 'x'), (2, 'y'), (3, 'z')", []⟩, .start]
    let c := engine.afterCalls (ofDatabase .standard []) calls
    let st : Engine.Statement := ⟨"update t set b = 'w' where a < 3 returning a", []⟩
    ∃ o d q t, library.execute st c = (.ok o, d) ∧ library.Runs st c q t ∧ counts q = true ∧
      o.rowsAffected = 2 ∧ o.rowsAffected = altered q t := by
  intro calls c st
  have hrows : (library.execute st c).1.toOption.any (fun o => o.rowsAffected = 2) = true := by
    decide +kernel
  have hcounts : (library.ran? st c).any counts = true := by decide +kernel
  obtain ⟨o, ho, hrows⟩ := Library.eq_ok_of_any hrows
  obtain ⟨q, t, hruns, hcounted, -⟩ :=
    Library.execute_rowsAffected (s := c) counting (ofDatabase .standard []) calls rfl
      (Prod.ext ho rfl)
  rw [hruns.ran?, Option.any_some] at hcounts
  exact ⟨o, _, q, t, Prod.ext ho rfl, hruns, hcounts, of_decide_eq_true hrows, hcounted hcounts⟩

def sizes (db : Database) : List (String × Nat) := db.map fun t => (t.name, t.rows.length)

/-- A table is made with a report of the rows that were put into another one before. -/
theorem create_reports_rows :
    let calls : List Call :=
      [.execute ⟨"create table t (a integer)", []⟩,
        .execute ⟨"insert into t values (1), (2)", []⟩]
    let c := engine.afterCalls (ofDatabase .standard []) calls
    ∃ o d, engine.execute ⟨"create table u (a integer)", []⟩ c = (.ok o, d) ∧ o.rowsAffected = 2 ∧
      sizes c.database = [("t", 2)] ∧ sizes d.database = [("t", 2), ("u", 0)] := by
  intro calls c
  let st : Engine.Statement := ⟨"create table u (a integer)", []⟩
  have hrows : (engine.execute st c).1.toOption.any (fun o => o.rowsAffected = 2) = true := by
    decide +kernel
  have hmade : sizes (engine.execute st c).2.database = [("t", 2), ("u", 0)] := by decide +kernel
  obtain ⟨o, ho, hrows⟩ := Library.eq_ok_of_any hrows
  exact ⟨o, _, Prod.ext ho rfl, of_decide_eq_true hrows, by decide +kernel, hmade⟩

end Connection

end Sql

end SqlTemplate
