import SqlTemplate.Proofs.Command.Execution
import SqlTemplate.Proofs.Sql.Transaction
/-!
Commands in a transaction.

The answer of an execution says which of its statements had an effect: `kept`. What is proved:
  1. `Catalog.kept_run`: these are the statements that succeeded, in a batch exactly those of the rows
     that its failures do not name.
  2. `execute_traced`, `execute_effect`: an execution sends these and those that failed, and does to
     the data what these do.
  3. `transact_executeAll`: a scope with any commands does to the data what the statements do that
     succeeded if its commit succeeds, and nothing otherwise.
-/

namespace SqlTemplate

open Engine (Statement Outcome Fault Ending succeeded Transactional transact)

variable {σ δ : Type}

/-- Of the statements of an execution, those that had an effect by its answer: all of them, or those
of the rows of a batch that did not fail. -/
def kept (sts : List Statement) : Except Error Result → List Statement
  | .ok _ => sts
  | .error (.batch _ failures) =>
    (sts.zipIdx.filter fun p => decide (p.2 ∉ failures.map Prod.fst)).map Prod.fst
  | .error _ => []

/-! ## Catalogs -/

/-- The rows that are not among the faults are those that succeeded. -/
theorem succeeded_zip_eq {i : Nat} {sts : List Statement} {answers : List (Except Fault Outcome)}
    (h : answers.length = sts.length) : succeeded (sts.zip answers) =
      ((sts.zipIdx i).filter fun p =>
        decide (p.2 ∉ (faultsFrom i answers).map Prod.fst)).map Prod.fst := by
  induction sts generalizing i answers with
  | nil => rfl
  | cons st rest ih =>
    cases answers with
    | nil => cases h
    | cons a answers =>
      have hrest := ih (i := i + 1) (Nat.succ.inj h)
      -- The faults of the later rows name none of the rows before.
      have hlater : i ∉ (faultsFrom (i + 1) answers).map Prod.fst := by
        intro hmem
        obtain ⟨⟨j, f⟩, hj, rfl⟩ := List.mem_map.mp hmem
        obtain ⟨k, hk, _⟩ := mem_faultsFrom.mp hj
        simp only at hk
        omega
      cases a with
      | ok o =>
        rw [List.zip_cons_cons, Engine.succeeded_cons_ok, List.zipIdx_cons, faultsFrom,
          List.filter_cons_of_pos (by simpa using hlater), List.map_cons, hrest]
      | error f =>
        rw [List.zip_cons_cons, Engine.succeeded_cons_error, List.zipIdx_cons, faultsFrom,
          List.filter_cons_of_neg (by simp), hrest]
        refine congrArg (List.map Prod.fst) (List.filter_congr fun p hp => ?_)
        have hp := (List.mem_zipIdx hp).1
        simp only [List.map_cons, List.mem_cons, not_or, decide_eq_decide]
        exact ⟨fun h => ⟨by omega, h⟩, And.right⟩

namespace Catalog

variable (c : Catalog) (sql : String) (used : List String) (engine : Engine σ) (s : σ)

theorem run_state : (c.run sql used engine s).2 = (engine.runAll (c.statements sql used) s).2 := by
  unfold run statements
  cases c.batchCount? with
  | none => rcases he : engine.execute (c.statement sql used 0) s with ⟨f | o, t⟩ <;>
      simp only [he, Engine.runAll]
  | some n => simp only; split <;> rfl

theorem run_traced (log : List (Statement × Except Fault Outcome)) :
    c.run sql used engine.traced (s, log) = ((c.run sql used engine s).1,
      (c.run sql used engine s).2, log ++ (c.statements sql used).zip
        (engine.runAll (c.statements sql used) s).1) := by
  unfold run statements
  cases c.batchCount? with
  | none =>
    rcases he : engine.execute (c.statement sql used 0) s with ⟨f | o, t⟩ <;>
      simp [Engine.traced, Engine.runAll, he]
  | some n =>
    simp only [engine.runAll_traced]
    cases faultsFrom 0 (engine.runAll ((List.range n).map (c.statement sql used)) s).1 <;> rfl

theorem kept_run : kept (c.statements sql used) (c.run sql used engine s).1 =
    succeeded ((c.statements sql used).zip (engine.runAll (c.statements sql used) s).1) := by
  unfold run statements
  cases c.batchCount? with
  | none =>
    rcases he : engine.execute (c.statement sql used 0) s with ⟨f | o, t⟩ <;>
      simp [Engine.runAll, he, kept]
  | some n =>
    simp only
    generalize (List.range n).map (c.statement sql used) = sts
    have hzip := succeeded_zip_eq (i := 0) (engine.runAll_length sts s)
    generalize engine.runAll sts s = r at hzip ⊢
    rw [hzip]
    cases hfaults : faultsFrom 0 r.1 with
    | nil => rw [List.filter_eq_self.mpr (by simp), List.zipIdx_map_fst, kept]
    | cons p faults => rfl

end Catalog

namespace Command

/-- The statements of an execution of a command that can be rendered. -/
def statements (c : Command) : List Statement :=
  match c.render with
  | .ok sql => c.catalog.statements sql (Placeholder.used sql.toList)
  | .error _ => []

/-- An execution is refused on every engine, or run by the catalog on every engine. -/
theorem execute_refused_or_run (c : Command) :
    (∃ e, kept c.statements (.error e) = [] ∧
      ∀ {σ : Type} (engine : Engine σ) (s : σ), c.execute engine s = (.error e, c, s)) ∨
    ∃ sql used d, c.statements = c.catalog.statements sql used ∧
      ∀ {σ : Type} (engine : Engine σ) (s : σ), c.execute engine s =
        ((c.catalog.run sql used engine s).1, d, (c.catalog.run sql used engine s).2) := by
  cases hrender : c.render with
  | error e =>
    refine .inl ⟨e, ?_, fun engine s => execute_of_render_error hrender engine s⟩
    rw [statements, hrender]
    cases e <;> rfl
  | ok sql =>
    have hstatements : c.statements =
        c.catalog.statements sql (Placeholder.used sql.toList) := by rw [statements, hrender]
    cases hphase : c.catalog.phase with
    | executed =>
      refine .inl ⟨.argument "catalog" .executed, rfl, fun engine s => ?_⟩
      rw [execute_of_render hrender, Catalog.execute, hphase]
    | building =>
      cases hvalid : c.catalog.validate (Placeholder.used sql.toList) with
      | error e =>
        refine .inl ⟨e, ?_, fun engine s => ?_⟩
        · unfold Catalog.validate at hvalid
          split at hvalid <;> cases hvalid
          rfl
        · rw [execute_of_render hrender, Catalog.execute, hphase, hvalid]
      | ok u =>
        refine .inr ⟨sql, Placeholder.used sql.toList,
          { c with catalog := { c.catalog with phase := .executed } }, hstatements,
          fun engine s => ?_⟩
        simp only [execute_of_render hrender, Catalog.execute, hphase, hvalid]

/-- The record of an execution has the statements that its answer says had an effect. -/
theorem execute_traced (c : Command) (engine : Engine σ) (s : σ)
    (log : List (Statement × Except Fault Outcome)) :
    ∃ record, succeeded record = kept c.statements (c.execute engine s).1 ∧
      c.execute engine.traced (s, log) = ((c.execute engine s).1, (c.execute engine s).2.1,
        (c.execute engine s).2.2, log ++ record) := by
  rcases c.execute_refused_or_run with ⟨e, hkept, hexecute⟩ | ⟨sql, used, d, hsts, hexecute⟩
  · -- An execution that is refused sends nothing.
    refine ⟨[], ?_, ?_⟩
    · rw [hexecute, hkept, Engine.succeeded_nil]
    · rw [hexecute, hexecute, List.append_nil]
  · refine ⟨(c.catalog.statements sql used).zip
      (engine.runAll (c.catalog.statements sql used) s).1, ?_, ?_⟩
    · rw [hexecute, hsts, Catalog.kept_run]
    · rw [hexecute, hexecute, Catalog.run_traced]

/-- An execution in a transaction does to the data what its statements do that succeed. -/
theorem execute_effect {engine : Engine σ} {data : σ → δ} {saved : σ → Option δ}
    {effect : δ → Statement → δ} {plain : Statement → Prop}
    (h : Transactional engine data saved effect plain) {c : Command}
    (hplain : ∀ st ∈ c.statements, plain st) (s : σ) :
    data (c.execute engine s).2.2 =
      (kept c.statements (c.execute engine s).1).foldl effect (data s) ∧
    saved (c.execute engine s).2.2 = saved s := by
  rcases c.execute_refused_or_run with ⟨e, hkept, hexecute⟩ | ⟨sql, used, d, hsts, hexecute⟩
  · rw [hexecute, hkept]
    exact ⟨rfl, rfl⟩
  · rw [hexecute, hsts, Catalog.kept_run, Catalog.run_state]
    exact h.runAll_effect (hsts ▸ hplain) s

/-! ## Lists of commands -/

/-- Executes commands in order, each on the state that the one before it left. -/
def executeAll (engine : Engine σ) : List Command → σ → List (Except Error Result) × σ
  | [], s => ([], s)
  | c :: rest, s =>
    let (answer, _, t) := c.execute engine s
    let (answers, u) := executeAll engine rest t
    (answer :: answers, u)

/-- The statements of commands that had an effect by their answers. -/
def keptAll (commands : List Command) (answers : List (Except Error Result)) : List Statement :=
  (commands.zip answers).flatMap fun p => kept p.1.statements p.2

theorem executeAll_traced (commands : List Command) (engine : Engine σ) (s : σ)
    (log : List (Statement × Except Fault Outcome)) :
    ∃ record, succeeded record = keptAll commands (executeAll engine commands s).1 ∧
      executeAll engine.traced commands (s, log) = ((executeAll engine commands s).1,
        (executeAll engine commands s).2, log ++ record) := by
  induction commands generalizing s log with
  | nil => exact ⟨[], rfl, by simp [executeAll]⟩
  | cons c rest ih =>
    obtain ⟨first, hfirst, hexecute⟩ := c.execute_traced engine s log
    obtain ⟨more, hmore, hrest⟩ := ih (c.execute engine s).2.2 (log ++ first)
    refine ⟨first ++ more, ?_, ?_⟩
    · rw [Engine.succeeded_append, hfirst, hmore]
      rfl
    · simp only [executeAll, hexecute, hrest, List.append_assoc]

theorem executeAll_effect {engine : Engine σ} {data : σ → δ} {saved : σ → Option δ}
    {effect : δ → Statement → δ} {plain : Statement → Prop}
    (h : Transactional engine data saved effect plain) {commands : List Command}
    (hplain : ∀ c ∈ commands, ∀ st ∈ c.statements, plain st) (s : σ) :
    data (executeAll engine commands s).2 =
      (keptAll commands (executeAll engine commands s).1).foldl effect (data s) ∧
    saved (executeAll engine commands s).2 = saved s := by
  induction commands generalizing s with
  | nil => exact ⟨rfl, rfl⟩
  | cons c rest ih =>
    obtain ⟨hdata, hsaved⟩ := execute_effect h (hplain c List.mem_cons_self) s
    obtain ⟨hdatas, hsaveds⟩ := ih (fun d hd => hplain d (List.mem_cons_of_mem c hd))
      (c.execute engine s).2.2
    refine ⟨?_, hsaveds.trans hsaved⟩
    let first := kept c.statements (c.execute engine s).1
    let more := keptAll rest (executeAll engine rest (c.execute engine s).2.2).1
    calc data (executeAll engine rest (c.execute engine s).2.2).2
        = more.foldl effect (data (c.execute engine s).2.2) := hdatas
      _ = more.foldl effect (first.foldl effect (data s)) := by rw [hdata]
      _ = (first ++ more).foldl effect (data s) := List.foldl_append.symm

/-- A scope in which commands are executed does to the data what exactly the statements do that
succeeded, if its commit succeeds. In any other case the data are those that it began with, and no
transaction is open. In a batch the rows that its failures do not name succeeded. -/
theorem transact_executeAll {engine : Engine σ} {data : σ → δ} {saved : σ → Option δ}
    {effect : δ → Statement → δ} {plain : Statement → Prop}
    (h : Transactional engine data saved effect plain) {commands : List Command}
    (hplain : ∀ c ∈ commands, ∀ st ∈ c.statements, plain st) {s t : σ}
    (hstart : engine.start s = (.ok (), t)) (ending : Ending) :
    ∃ answers answer u record,
      transact engine (executeAll engine commands) ending s = (.ok (answers, answer), u) ∧
      transact engine.traced (executeAll engine.traced commands) ending (s, []) =
        (.ok (answers, answer), u, record) ∧
      succeeded record = keptAll commands answers ∧
      (ending = .commit → answer = .ok () →
        data u = (succeeded record).foldl effect (data s)) ∧
      ((ending = .commit → answer ≠ .ok ()) → data u = data s ∧ saved u = none) := by
  obtain ⟨record, hrecord, htraced⟩ := executeAll_traced commands engine t []
  obtain ⟨hdata, hsaved⟩ := executeAll_effect h hplain t
  obtain ⟨answer, u, htransact, hcommitted, hrestored⟩ :=
    h.transact_restores hstart hsaved ending
  refine ⟨_, answer, u, record, htransact, ?_, hrecord, fun hc ha => ?_, hrestored⟩
  · rw [Engine.transact_traced engine hstart htraced, htransact, List.nil_append]
  · rw [hcommitted hc ha, hdata, hrecord, (h.start_ok hstart).1]

/-- A connection to an empty database makes a table and puts three rows into it, of which the last has
the number of the first: the commit keeps the table with two rows, and without it there is nothing. -/
theorem transact_executeAll_second_row_taken :
    let create := ofText "create table t (id integer primary key)"
    let insert := ((ofText "insert into t values (:id)").declare
      (.array "id" [.int 1, .int 2, .int 1])).2
    let engine := Sql.Connection.engine
    let s : Sql.Connection := ⟨[], none, 0, true⟩
    (∃ answers u record,
      transact engine (executeAll engine [create, insert]) .commit s =
        (.ok (answers, .ok ()), u) ∧
      succeeded record = keptAll [create, insert] answers ∧ (succeeded record).length = 3 ∧
      u.database = (succeeded record).foldl Sql.databaseAfter [] ∧
      u.database.map (fun t => (t.name, t.rows.map (·.number))) = [("t", [1, 2])]) ∧
    ∃ answers answer u,
      transact engine (executeAll engine [create, insert]) .leave s = (.ok (answers, answer), u) ∧
      u.database = [] ∧ u.saved = none := by
  intro create insert engine s
  have hplain : ∀ c ∈ [create, insert], ∀ st ∈ c.statements, Sql.isPlain st.sql = true := by
    decide +kernel
  have hstart : engine.start s = (.ok (), { s with saved := some [] }) :=
    Sql.Connection.engine_start s
  refine ⟨?_, ?_⟩
  · obtain ⟨answers, answer, u, record, htransact, _, hrecord, hcommitted, _⟩ :=
      transact_executeAll Sql.Connection.transactional hplain hstart .commit
    have hkept : (transact engine (executeAll engine [create, insert]) .commit s).1.map
        (fun p => (p.2, (keptAll [create, insert] p.1).length)) = .ok (.ok (), 3) := by
      decide +kernel
    have hrows : (transact engine (executeAll engine [create, insert]) .commit s).2.database.map
        (fun t => (t.name, t.rows.map (·.number))) = [("t", [1, 2])] := by decide +kernel
    rw [htransact] at hkept hrows
    obtain ⟨rfl, hlength⟩ := Prod.mk.inj (Except.ok.inj hkept)
    exact ⟨answers, u, record, htransact, hrecord, by rw [hrecord]; exact hlength,
      hcommitted rfl rfl, hrows⟩
  · obtain ⟨answers, answer, u, _, htransact, _, _, _, hrestored⟩ :=
      transact_executeAll Sql.Connection.transactional hplain hstart .leave
    exact ⟨answers, answer, u, htransact, hrestored nofun⟩

end Command

end SqlTemplate
