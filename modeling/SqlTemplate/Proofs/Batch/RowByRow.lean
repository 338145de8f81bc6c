import SqlTemplate.Proofs.Catalog.Invariant
/-!
A batch is its rows run one by one.

`Catalog.row c i` is the catalog of row `i`: every array is replaced by its value for the row, and
nothing else is changed. What is proved of a catalog that a run reaches and that holds an array:
  1. `mem_array_of_lt`: no array lacks the value of a row.
  2. `statement_row`: row `i` sends the statement that its own catalog sends.
  3. `run_rowwise`: the batch leaves the engine as the executions of its rows' catalogs do, one
     after another, and makes the same calls in the same order, one for each row.
  4. `BatchAnswer` is what the batch answers: the results of its rows put together, or the faults of
     all rows that failed.
-/

namespace SqlTemplate

open Engine (Statement Outcome Fault)

/-! ## The catalog of a row -/

/-- What row `i` holds of a payload: the value of an array for the row, and all of any other. -/
def Payload.row (i : Nat) : Payload → Payload
  | .array values => .scalar (values[i]?.getD .null)
  | p => p

def Spec.row (s : Spec) (i : Nat) : Spec := { s with payload := s.payload.row i }

/-- The catalog of row `i`. It has no arrays. -/
def Catalog.row (c : Catalog) (i : Nat) : Catalog := { c with specs := c.specs.map (·.row i) }

theorem Payload.row_shape (p : Payload) (i : Nat) : (p.row i).shape ≠ .array := by
  cases p <;> exact fun h => by cases h

theorem Payload.atRow_row (p : Payload) (i : Nat) : (p.row i).atRow 0 = p.atRow i := by
  cases p with
  | array values => simp only [row, atRow]; cases values[i]? <;> rfl
  | _ => rfl

namespace Catalog

variable (c : Catalog) (sql : String) (used : List String)

theorem hasArray_row (i : Nat) : (c.row i).hasArray = false := by
  simp only [hasArray, row, List.any_map, List.any_eq_false, Function.comp, beq_iff_eq]
  exact fun s _ => s.payload.row_shape i

theorem sent_row (i : Nat) : (c.row i).sent used = (c.sent used).map (·.row i) := by
  simp only [sent, row, List.filter_map]
  rfl

theorem statement_row (i : Nat) : (c.row i).statement sql used 0 = c.statement sql used i := by
  have hbind : ∀ s : Spec, (s.row i).bindAt 0 = s.bindAt i := fun s => by
    simp only [Spec.bindAt, Spec.row, Payload.atRow_row]
  rw [statement, statement, sent_row, List.map_map]
  exact congrArg (Statement.mk sql) (List.map_congr_left fun s _ => hbind s)

/-- Every array of a catalog that a run reaches has a value for every row. -/
theorem mem_array_of_lt {c : Catalog} (h : c.Valid) {n i : Nat} (hn : c.count = some n) (hi : i < n)
    {s : Spec} (hs : s ∈ c.specs) {values : List Value} (hv : s.payload = .array values) :
    ∃ v, values[i]? = some v ∧ (s.row i).payload = .scalar v := by
  have hrows := (h.fits s hs).rows values hv
  rw [hn, Option.some.injEq] at hrows
  refine ⟨values[i], List.getElem?_eq_getElem (hrows ▸ hi), ?_⟩
  simp only [Spec.row, hv, Payload.row, List.getElem?_eq_getElem (hrows ▸ hi), Option.getD_some]

theorem exists_count {c : Catalog} (h : c.Valid) (ha : c.hasArray = true) :
    ∃ n, c.count = some n ∧ c.batchCount? = some n := by
  obtain ⟨s, hs, hshape⟩ := List.any_eq_true.mp ha
  cases hp : s.payload with
  | array values =>
    have hn := (h.fits s hs).rows values hp
    exact ⟨values.length, hn, by rw [batchCount?, if_pos ha, hn]⟩
  | scalar v => rw [hp] at hshape; cases hshape
  | assoc entries => rw [hp] at hshape; cases hshape

end Catalog

/-! ## The calls -/

namespace Engine

variable {σ : Type}

/-- The engine that also records its executions, each with its answer, oldest first. -/
def traced (engine : Engine σ) : Engine (σ × List (Statement × Except Fault Outcome)) where
  execute st s :=
    let (a, t) := engine.execute st s.1
    (a, t, s.2 ++ [(st, a)])
  start s := let (a, t) := engine.start s.1; (a, t, s.2)
  commit s := let (a, t) := engine.commit s.1; (a, t, s.2)
  rollback s := let (a, t) := engine.rollback s.1; (a, t, s.2)

theorem runAll_length (engine : Engine σ) (sts : List Statement) (s : σ) :
    (engine.runAll sts s).1.length = sts.length := by
  induction sts generalizing s with
  | nil => rfl
  | cons st rest ih => simp only [runAll, List.length_cons, ih]

theorem runAll_state (engine : Engine σ) (sts : List Statement) (s : σ) :
    (engine.runAll sts s).2 = sts.foldl (fun s st => (engine.execute st s).2) s := by
  induction sts generalizing s with
  | nil => rfl
  | cons st rest ih => simp only [runAll, List.foldl_cons, ih]

/-- The record of a run has each statement with its answer; the run is otherwise the same. -/
theorem runAll_traced (engine : Engine σ) (sts : List Statement) (s : σ)
    (log : List (Statement × Except Fault Outcome)) :
    engine.traced.runAll sts (s, log) = ((engine.runAll sts s).1, (engine.runAll sts s).2,
      log ++ sts.zip (engine.runAll sts s).1) := by
  induction sts generalizing s log with
  | nil => simp [runAll]
  | cons st rest ih =>
    simp only [runAll, List.zip_cons_cons]
    simp only [traced] at ih ⊢
    rw [ih]
    simp [List.append_assoc]

end Engine

theorem Catalog.run_single_state {σ : Type} {c : Catalog} (h : c.hasArray = false) (sql : String)
    (used : List String) (engine : Engine σ) (s : σ) :
    (c.run sql used engine s).2 = (engine.execute (c.statement sql used 0) s).2 := by
  have hcount : c.batchCount? = none := by simp [batchCount?, h]
  simp only [run, hcount]
  split <;> rename_i he <;> rw [he]

theorem Catalog.run_batch_runAll {σ : Type} {c : Catalog} {n : Nat} (h : c.batchCount? = some n)
    (sql : String) (used : List String) (engine : Engine σ) (s : σ) :
    (c.run sql used engine s).2 =
      (engine.runAll ((List.range n).map (c.statement sql used)) s).2 := by
  simp only [run, h]
  split <;> rfl

theorem Catalog.run_batch_state {σ : Type} {c : Catalog} {n : Nat} (h : c.batchCount? = some n)
    (sql : String) (used : List String) (engine : Engine σ) (s : σ) :
    (c.run sql used engine s).2 =
      (List.range n).foldl (fun s i => ((c.row i).run sql used engine s).2) s := by
  rw [run_batch_runAll h, Engine.runAll_state, List.foldl_map]
  congr 1
  funext s i
  rw [run_single_state (c.hasArray_row i), statement_row]

/-! ## The answer -/

theorem faultsFrom_ok (i : Nat) (os : List Outcome) : faultsFrom i (os.map .ok) = [] := by
  induction os generalizing i with
  | nil => rfl
  | cons o os ih => exact ih (i + 1)

theorem outcomes_ok (os : List Outcome) : outcomes (os.map .ok) = os := by
  induction os with
  | nil => rfl
  | cons o os ih => exact congrArg (o :: ·) ih

/-- The faults are exactly those among the answers, each with its row. -/
theorem mem_faultsFrom {i j : Nat} {f : Fault} {answers : List (Except Fault Outcome)} :
    (j, f) ∈ faultsFrom i answers ↔ ∃ k, j = i + k ∧ answers[k]? = some (.error f) := by
  induction answers generalizing i with
  | nil => simp [faultsFrom]
  | cons a rest ih =>
    -- The first answer is row `i`; the others are counted from `i + 1`.
    have hshift : (∃ k, j = i + 1 + k ∧ rest[k]? = some (.error f)) ↔
        ∃ k, j = i + (k + 1) ∧ (a :: rest)[k + 1]? = some (.error f) := by
      simp only [List.getElem?_cons_succ, Nat.add_assoc, Nat.add_comm 1]
    have hsplit : (∃ k, j = i + k ∧ (a :: rest)[k]? = some (.error f)) ↔
        (j = i ∧ a = .error f) ∨ ∃ k, j = i + (k + 1) ∧ (a :: rest)[k + 1]? = some (.error f) := by
      constructor
      · rintro ⟨k, hj, hk⟩
        cases k with
        | zero => exact .inl ⟨hj, by simpa using hk⟩
        | succ k => exact .inr ⟨k, hj, hk⟩
      · rintro (⟨hj, ha⟩ | ⟨k, hj, hk⟩)
        · exact ⟨0, hj, by rw [ha]; rfl⟩
        · exact ⟨k + 1, hj, hk⟩
    rw [hsplit, ← hshift, ← ih]
    cases a with
    | ok o => simp [faultsFrom]
    | error g =>
      simp only [faultsFrom, List.mem_cons, Prod.mk.injEq, Except.error.injEq]
      exact or_congr (and_congr_right fun _ => eq_comm) Iff.rfl

theorem faultsFrom_ascending (i : Nat) (answers : List (Except Fault Outcome)) :
    (faultsFrom i answers).Pairwise (·.1 < ·.1) := by
  induction answers generalizing i with
  | nil => exact .nil
  | cons a rest ih =>
    cases a with
    | ok o => exact ih (i + 1)
    | error f =>
      refine List.pairwise_cons.mpr ⟨fun p hp => ?_, ih (i + 1)⟩
      obtain ⟨k, hk, _⟩ := mem_faultsFrom.mp hp
      change i < p.1
      omega

/-- What a batch with some outputs answers when its rows were answered so. If all of them succeeded,
the numbers of changed rows are added, the rows put one after another, and each output has its
captured value of every row, null where a row gave none. If a row failed, the answer has the number
of rows and exactly the rows that failed, each with its fault. -/
structure BatchAnswer (outputs : String → Prop) (answers : List (Except Fault Outcome))
    (result : Except Error Result) : Prop where
  success : ∀ os : List Outcome, answers = os.map .ok → ∃ r, result = .ok r ∧
    r.rowsAffected = (os.map (·.rowsAffected)).foldr (· + ·) 0 ∧
    r.rows = (os.map (·.rows)).flatten ∧
    (∀ name, outputs name →
      r.outputs.get? name = some (.array (os.map fun o => (o.outputs.get? name).getD .null))) ∧
    ∀ name, ¬ outputs name → r.outputs.get? name = none
  failure : (∃ f, .error f ∈ answers) → ∃ failures,
    result = .error (.batch answers.length failures) ∧ failures.Pairwise (·.1 < ·.1) ∧
    ∀ i f, (i, f) ∈ failures ↔ answers[i]? = some (.error f)

theorem foldl_rowsAffected (os : List Outcome) (n : Nat) :
    os.foldl (fun n o => n + o.rowsAffected) n = n + (os.map (·.rowsAffected)).foldr (· + ·) 0 := by
  induction os generalizing n with
  | nil => rfl
  | cons o os ih => rw [List.foldl_cons, ih, List.map_cons, List.foldr_cons, Nat.add_assoc]

theorem captured_eq (o : Outcome) (name : String) :
    o.captured name = (o.outputs.get? name).getD .null := by
  unfold Engine.Outcome.captured
  cases o.outputs.get? name <;> rfl

/-- The outputs of a batch are the parameters that give values out, whether used or not. -/
theorem get?_ofRows_outputs (c : Catalog) (used : List String) (os : List Outcome) (name : String) :
    (Result.ofRows (c.outputs used) os).outputs.get? name =
      if name ∈ (c.outputs used).map (·.name)
      then some (.array (os.map fun o => (o.outputs.get? name).getD .null)) else none := by
  have hmap : (c.outputs used).map (fun s => (s.name, Output.array (os.map (·.captured s.name)))) =
      ((c.outputs used).map (·.name)).map fun n => (n, Output.array (os.map (·.captured n))) := by
    rw [List.map_map]; rfl
  have hcaptured : (fun o : Outcome => o.captured name) = fun o => (o.outputs.get? name).getD .null :=
    funext fun o => captured_eq o name
  simp only [Result.ofRows, Dict.ofList, hmap]
  rw [Dict.get?_insertAll_map]
  simp only [hcaptured]
  rfl

theorem mem_outputs_iff (c : Catalog) (used : List String) (name : String) :
    name ∈ (c.outputs used).map (·.name) ↔
      ∃ s ∈ c.specs, s.name = name ∧ s.direction.isOutput = true := by
  simp only [Catalog.outputs, Catalog.sent, List.mem_map, List.mem_filter, Bool.or_eq_true]
  constructor
  · rintro ⟨s, ⟨⟨hs, _⟩, ho⟩, hn⟩
    exact ⟨s, hs, hn, ho⟩
  · rintro ⟨s, hs, hn, ho⟩
    exact ⟨s, ⟨⟨hs, .inl ho⟩, ho⟩, hn⟩

theorem Catalog.run_batch_answer {σ : Type} {c : Catalog} {n : Nat} (h : c.batchCount? = some n)
    (sql : String) (used : List String) (engine : Engine σ) (s : σ) :
    BatchAnswer (fun name => ∃ p ∈ c.specs, p.name = name ∧ p.direction.isOutput = true)
      (engine.runAll ((List.range n).map (c.statement sql used)) s).1
      (c.run sql used engine s).1 := by
  have hlength := Engine.runAll_length engine ((List.range n).map (c.statement sql used)) s
  rw [List.length_map, List.length_range] at hlength
  simp only [run, h]
  generalize engine.runAll ((List.range n).map (c.statement sql used)) s = p at hlength ⊢
  obtain ⟨answers, t⟩ := p
  refine ⟨?_, ?_⟩
  · rintro os rfl
    refine ⟨Result.ofRows (c.outputs used) os, ?_, ?_, ?_, fun name ho => ?_, fun name ho => ?_⟩
    · simp only [faultsFrom_ok, outcomes_ok]
    · simp only [Result.ofRows, foldl_rowsAffected, Nat.zero_add]
    · simp only [Result.ofRows, List.flatMap_def]
    · rw [get?_ofRows_outputs, if_pos ((mem_outputs_iff c used name).mpr ho)]
    · rw [get?_ofRows_outputs, if_neg (mt (mem_outputs_iff c used name).mp ho)]
  · rintro ⟨f, hf⟩
    refine ⟨faultsFrom 0 answers, ?_, faultsFrom_ascending 0 answers, fun i g => ?_⟩
    · obtain ⟨k, hk⟩ := List.mem_iff_getElem?.mp hf
      have hmem : (k, f) ∈ faultsFrom 0 answers := mem_faultsFrom.mpr ⟨k, by omega, hk⟩
      split
      · rename_i hnil
        rw [hnil] at hmem
        cases hmem
      · rw [← hlength]
    · rw [mem_faultsFrom]
      simp

/-! ## The batch -/

/-- What row `i` sends for a parameter: an array goes with its value for the row, anything else as a
whole. -/
structure SentAs (i : Nat) (p : Spec) (b : Engine.Bind) : Prop where
  name : b.name = p.name
  direction : b.direction = p.direction
  capacity : b.capacity = p.capacity
  scalar : ∀ v, p.payload = .scalar v → b.carried = .scalar v
  array : ∀ values, p.payload = .array values → ∃ v, values[i]? = some v ∧ b.carried = .scalar v
  assoc : ∀ entries, p.payload = .assoc entries → b.carried = .assoc entries

theorem Catalog.sentAs_bindAt {c : Catalog} (h : c.Valid) {n i : Nat} (hn : c.count = some n)
    (hi : i < n) {p : Spec} (hp : p ∈ c.specs) : SentAs i p (p.bindAt i) where
  name := rfl
  direction := rfl
  capacity := rfl
  scalar v hv := by simp only [Spec.bindAt, hv, Payload.atRow]
  array values hv := by
    obtain ⟨v, hvalue, _⟩ := mem_array_of_lt h hn hi hp hv
    exact ⟨v, hvalue, by simp only [Spec.bindAt, hv, Payload.atRow, hvalue]; rfl⟩
  assoc entries hv := by simp only [Spec.bindAt, hv, Payload.atRow]

/-- An execution of `c` from the state `s` is that of its `n` rows, one after another: `record` has
the calls with their answers, and `t` is the state that they leave. -/
structure RowByRow {σ : Type} (c : Catalog) (sql : String) (used : List String) (engine : Engine σ)
    (s : σ) (n : Nat) (record : List (Statement × Except Fault Outcome)) (t : σ) : Prop where
  count : c.count = some n
  /-- The catalog of a row has no arrays, but the value of the row of each: none is missing. -/
  rows : ∀ i < n, (c.row i).hasArray = false ∧ ∀ p ∈ c.specs, ∀ values, p.payload = .array values →
    ∃ v, values[i]? = some v ∧ (p.row i).payload = .scalar v
  /-- There is one call for each row. -/
  length : record.length = n
  /-- The batch makes the calls of the record and leaves the engine in the state `t`. -/
  batch : (c.run sql used engine.traced (s, [])).2 = (t, record)
  /-- So do the executions of its rows, one after another. -/
  singles : (List.range n).foldl (fun u i => ((c.row i).run sql used engine.traced u).2) (s, []) =
    (t, record)
  /-- Call `i` is the call that the catalog of row `i` makes in any state: the statement text with
  the outputs and the used parameters in the order of their declaration. -/
  calls : ∀ i st a, record[i]? = some (st, a) →
    (∀ u log, ((c.row i).run sql used engine.traced (u, log)).2 =
      ((engine.execute st u).2, log ++ [(st, (engine.execute st u).1)])) ∧
    st.sql = sql ∧ st.binds =
      (c.specs.filter fun p => p.direction.isOutput || used.contains p.name).map (·.bindAt i)
  /-- Every parameter goes with its name, its direction and its capacity. -/
  sent : ∀ i < n, ∀ p ∈ c.specs, SentAs i p (p.bindAt i)
  /-- Without the record the engine ends in the same state. -/
  state : (c.run sql used engine s).2 = t
  answer : BatchAnswer (fun name => ∃ p ∈ c.specs, p.name = name ∧ p.direction.isOutput = true)
    (record.map Prod.snd) (c.run sql used engine s).1

/-- A catalog that a run reaches and that holds an array is executed row by row, on every engine
and from every state of it. -/
theorem run_rowwise {σ : Type} {c : Catalog} (h : c.Reachable) (ha : c.hasArray = true)
    (sql : String) (used : List String) (engine : Engine σ) (s : σ) :
    ∃ n record t, RowByRow c sql used engine s n record t := by
  obtain ⟨n, hn, hbatch⟩ := c.exists_count h.valid ha
  let sts := (List.range n).map (c.statement sql used)
  have hlength : (engine.runAll sts s).1.length = sts.length := engine.runAll_length sts s
  have hsts : sts.length = n := by rw [List.length_map, List.length_range]
  have htraced : (c.run sql used engine.traced (s, [])).2 =
      ((engine.runAll sts s).2, sts.zip (engine.runAll sts s).1) := by
    have hrun := Catalog.run_batch_runAll hbatch sql used engine.traced (s, [])
    rw [hrun, Engine.runAll_traced, List.nil_append]
  refine ⟨n, sts.zip (engine.runAll sts s).1, (engine.runAll sts s).2, hn, fun i hi => ?_, ?_,
    htraced, ?_, fun i st a hst => ?_, fun i hi p hp => ?_, ?_, ?_⟩
  · exact ⟨c.hasArray_row i, fun p hp values hv => Catalog.mem_array_of_lt h.valid hn hi hp hv⟩
  · rw [List.length_zip, hlength, hsts, Nat.min_self]
  · rw [← Catalog.run_batch_state hbatch, htraced]
  · have hst : sts[i]? = some st := (List.getElem?_zip_eq_some.mp hst).1
    obtain ⟨j, hj, rfl⟩ := Option.map_eq_some_iff.mp (List.getElem?_map .. ▸ hst)
    obtain ⟨_, rfl⟩ := List.getElem?_eq_some_iff.mp hj
    rw [List.getElem_range]
    refine ⟨fun u log => ?_, rfl, rfl⟩
    rw [Catalog.run_single_state (c.hasArray_row i), Catalog.statement_row]
    rfl
  · exact Catalog.sentAs_bindAt h.valid hn hi hp
  · exact Catalog.run_batch_runAll hbatch sql used engine s
  · rw [List.map_snd_zip (Nat.le_of_eq hlength)]
    exact Catalog.run_batch_answer hbatch sql used engine s

/-- Two rows, of which the engine refuses the second: the associative values go whole with both, and
the unused name is not sent. -/
theorem run_rowwise_second_row_refused :
    let c := ((((Catalog.declare ∅ (.array "id" [.int 1, .int 2])).2.declare
      (.assocList "codes" (some [.int 7]))).2.declare (.scalar "unused" .null)).2.declare
      (.output "status")).2
    let fault : Fault := ⟨.uniqueViolation, some 2067, "id"⟩
    let engine := Engine.scripted ⟨none, none, none⟩
    c.Reachable ∧ c.hasArray = true ∧
      (∃ n record t, RowByRow c "insert" ["codes", "id"] engine [.ok default, .error fault] n record t) ∧
      (c.run "insert" ["codes", "id"] engine [.ok default, .error fault]).1 =
        .error (.batch 2 [(1, fault)]) := by
  intro c fault engine
  have h : c.Reachable := ⟨∅, .empty, .tail (.tail (.tail (.tail .refl (.declare _)) (.declare _))
    (.declare _)) (.declare _)⟩
  exact ⟨h, rfl, run_rowwise h rfl "insert" ["codes", "id"] engine _, rfl⟩

end SqlTemplate
