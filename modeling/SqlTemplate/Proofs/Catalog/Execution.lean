import SqlTemplate.Proofs.Batch.RowByRow
/-!
When an execution of a catalog calls the engine.

The calls are those that the recording engine writes down; it answers as the engine does. What is
proved:
  1. `run_recording`: a run makes one call for each of the `statements`, in their order, and begins
     and ends no transaction.
  2. `execute_cases`: an execution is refused because of the phase, refused for the first used name
     that is not declared, or run; only the run calls the engine and changes the catalog.
  3. `length_statements`: a valid catalog has as many statements as the batch has rows if it holds an
     array, else one.
-/

namespace SqlTemplate

open Engine (Statement Call)

variable {σ : Type}

theorem Engine.runAll_recording (engine : Engine σ) (sts : List Statement) (s : σ)
    (log : List Call) : engine.recording.runAll sts (s, log) =
      ((engine.runAll sts s).1, (engine.runAll sts s).2, log ++ sts.map .execute) := by
  induction sts generalizing s log with
  | nil => simp [runAll]
  | cons st rest ih =>
    simp only [runAll, List.map_cons]
    simp only [recording] at ih ⊢
    rw [ih]
    simp [List.append_assoc]

namespace Catalog

def statements (c : Catalog) (sql : String) (used : List String) : List Statement :=
  match c.batchCount? with
  | none => [c.statement sql used 0]
  | some n => (List.range n).map (c.statement sql used)

variable (c : Catalog) (sql : String) (used : List String)

/-- The recording engine writes down the statements and changes nothing else of the run. -/
theorem run_recording (engine : Engine σ) (s : σ) (log : List Call) :
    c.run sql used engine.recording (s, log) = ((c.run sql used engine s).1,
      (c.run sql used engine s).2, log ++ (c.statements sql used).map .execute) := by
  unfold run statements
  cases c.batchCount? with
  | none =>
    simp only [Engine.recording]
    rcases he : engine.execute (c.statement sql used 0) s with ⟨f | o, t⟩ <;> simp only [he] <;> rfl
  | some n =>
    simp only [engine.runAll_recording]
    cases faultsFrom 0 (engine.runAll ((List.range n).map (c.statement sql used)) s).1 <;> rfl

theorem sql_statements : ∀ st ∈ c.statements sql used, st.sql = sql := by
  unfold statements
  intro st hst
  split at hst
  · rw [List.mem_singleton.mp hst]
    rfl
  · obtain ⟨i, _, rfl⟩ := List.mem_map.mp hst
    rfl

theorem length_statements {c : Catalog} (h : c.Valid) :
    (c.hasArray = true → c.count = some (c.statements sql used).length) ∧
    (c.hasArray = false → (c.statements sql used).length = 1) ∧
    1 ≤ (c.statements sql used).length := by
  unfold statements
  cases ha : c.hasArray with
  | false =>
    have hnone : c.batchCount? = none := by simp [batchCount?, ha]
    simp [hnone]
  | true =>
    obtain ⟨n, hn, hbatch⟩ := exists_count h ha
    simpa [hbatch, hn] using h.count_pos n hn

/-- The calls that an execution makes, which the recording engine writes down. -/
def calls (engine : Engine σ) (s : σ) : List Call :=
  (c.execute sql used engine.recording (s, [])).2.2.2

/-- What an execution answers, what it leaves and which calls it makes. -/
inductive Execution (c : Catalog) (sql : String) (used : List String) (engine : Engine σ) (s : σ) :
    Except Error Result × Catalog × σ → List Call → Prop
  | again (hphase : c.phase = .executed) :
      Execution c sql used engine s (.error (.argument "catalog" .executed), c, s) []
  | unbound (name : String) (hphase : c.phase = .building)
      (hname : used.find? (fun n => !c.declares n) = some name) :
      Execution c sql used engine s (.error (.unbound name), c, s) []
  | ran (hphase : c.phase = .building) (hused : ∀ name ∈ used, c.declares name = true) :
      Execution c sql used engine s ((c.run sql used engine s).1, { c with phase := .executed },
        (c.run sql used engine s).2) ((c.statements sql used).map .execute)

theorem execute_cases (engine : Engine σ) (s : σ) :
    Execution c sql used engine s (c.execute sql used engine s) (c.calls sql used engine s) := by
  unfold calls execute validate
  cases hphase : c.phase with
  | executed => exact .again hphase
  | building =>
    cases hfind : used.find? fun n => !c.declares n with
    | some name => exact .unbound name hphase hfind
    | none =>
      simp only [run_recording, List.nil_append]
      refine .ran hphase fun name hname => ?_
      simpa using List.find?_eq_none.mp hfind name hname

/-- Without a call nothing changes; with one the catalog was ready, and is executed. -/
theorem execute_changes (engine : Engine σ) (s : σ) :
    (c.calls sql used engine s = [] ∧ (c.execute sql used engine s).2.1 = c) ∨
    (c.phase = .building ∧ (c.execute sql used engine s).2.1 = { c with phase := .executed }) := by
  have h := execute_cases c sql used engine s
  generalize c.execute sql used engine s = r at h
  generalize c.calls sql used engine s = log at h
  cases h with
  | again | unbound => exact .inl ⟨rfl, rfl⟩
  | ran hphase => exact .inr ⟨hphase, rfl⟩

theorem execute_recording (engine : Engine σ) (s : σ) :
    c.execute sql used engine.recording (s, []) = ((c.execute sql used engine s).1,
      (c.execute sql used engine s).2.1, (c.execute sql used engine s).2.2,
      c.calls sql used engine s) := by
  unfold calls execute
  cases c.phase with
  | executed => rfl
  | building =>
    cases c.validate used with
    | error e => rfl
    | ok u => simp only [run_recording]

end Catalog

end SqlTemplate
