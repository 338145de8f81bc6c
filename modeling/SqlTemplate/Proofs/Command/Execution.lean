import SqlTemplate.Proofs.Catalog.Execution
import SqlTemplate.Proofs.Command.Run
import SqlTemplate.Proofs.Prune.Failure
/-!
When a command calls the engine.

An execution renders the statement, asks for a catalog that is ready, asks for every placeholder of
the statement to be declared, and only then calls the engine. What is proved:
  1. `execute_recording`: `calls` is what an execution calls, in an execution that is otherwise the
     same.
  2. `execute_cases`: an execution is `Refused` for the first of the three that is not in order, or
     it is run by the catalog.
  3. `execute_guarded`: an execution of a reachable command that makes a call is `Executed` in full,
     one call for each row, and one that makes none changes nothing and says why.
-/

namespace SqlTemplate.Command

open Engine (Call)

variable {σ : Type}

def calls (c : Command) (engine : Engine σ) (s : σ) : List Call :=
  (c.execute engine.recording (s, [])).2.2.2

/-- Of the names that a statement uses and a catalog lacks, the name is the least. -/
structure LeastUndeclared (catalog : Catalog) (sql name : String) : Prop where
  used : name ∈ Placeholder.scan sql.toList
  undeclared : catalog.declares name = false
  least : ∀ other ∈ Placeholder.scan sql.toList, catalog.declares other = false → name ≤ other

/-- Why an execution does not call the engine, in the order in which it is looked for. -/
inductive Refusal (c : Command) : Error → Prop
  | unrendered {e : Error} (h : c.render = .error e) : Refusal c e
  | again {sql : String} (h : c.render = .ok sql) (hphase : c.catalog.phase = .executed) :
      Refusal c (.argument "catalog" .executed)
  | unbound {sql name : String} (h : c.render = .ok sql) (hphase : c.catalog.phase = .building)
      (hname : LeastUndeclared c.catalog sql name) : Refusal c (.unbound name)

/-- An execution that calls the engine: everything was in order, each row of a batch was sent, or
else one statement, and only the phase of the command is another. -/
structure Executed (c : Command) (calls : List Call) (d : Command) : Prop where
  building : c.catalog.phase = .building
  /-- The statement could be rendered, has no undeclared placeholder, and is what was executed. No
  transaction was begun or ended. -/
  rendered : ∃ sql, c.render = .ok sql ∧
    (∀ name ∈ Placeholder.scan sql.toList, c.catalog.declares name = true) ∧
    ∀ call ∈ calls, ∃ binds, call = .execute ⟨sql, binds⟩
  batch : c.catalog.hasArray = true → c.catalog.count = some calls.length
  single : c.catalog.hasArray = false → calls.length = 1
  changed : d = { c with catalog := { c.catalog with phase := .executed } }

/-- An execution that does not call the engine: it says why, and nothing is changed. -/
structure Refused (c : Command) (answer : Except Error Result) (d : Command) : Prop where
  refusal : ∃ e, answer = .error e ∧ Refusal c e ∧ (∀ fault, e ≠ .engine fault) ∧
    ∀ n failures, e ≠ .batch n failures
  unbound : ∀ name, answer = .error (.unbound name) →
    ∃ sql, c.render = .ok sql ∧ LeastUndeclared c.catalog sql name
  unchanged : d = c

/-- The first of the used names that is not declared is the least. -/
theorem leastUndeclared_of_find? {catalog : Catalog} {sql name : String}
    (h : (Placeholder.used sql.toList).find? (fun n => !catalog.declares n) = some name) :
    LeastUndeclared catalog sql name := by
  obtain ⟨hname, before, after, hused, hbefore⟩ := List.find?_eq_some_iff_append.mp h
  have hascending := Placeholder.ascending_used sql.toList
  rw [hused] at hascending
  -- The names ascend, so those after the first that is missing are greater.
  have hafter := (List.pairwise_cons.mp (List.pairwise_append.mp hascending).2.1).1
  refine ⟨Placeholder.mem_used.mp (by rw [hused]; simp), by simpa using hname, ?_⟩
  intro other hother hundeclared
  rw [← Placeholder.mem_used, hused] at hother
  rcases List.mem_append.mp hother with hmem | hmem
  · simpa [hundeclared] using hbefore other hmem
  · rcases List.mem_cons.mp hmem with rfl | hmem
    · exact String.le_refl _
    · have hlt : name < other := compareOfLessAndEq_eq_lt.mp (hafter other hmem)
      exact Std.le_of_not_ge fun hge => hge hlt

theorem ofTemplate_of_render {c : Command} {e : Error} (h : c.render = .error e) :
    Template.OfTemplate e := by
  unfold render at h
  split at h
  · exact Template.ofTemplate_of_prune h
  · cases h

theorem Refusal.refused {c : Command} {e : Error} (h : Refusal c e) :
    Refused c (.error e) c := by
  refine ⟨⟨e, rfl, h, ?_, ?_⟩, ?_, rfl⟩
  · rintro fault rfl
    cases h with
    | unrendered h => cases ofTemplate_of_render h
  · rintro n failures rfl
    cases h with
    | unrendered h => cases ofTemplate_of_render h
  · rintro name ⟨⟩
    cases h with
    | unrendered h => cases ofTemplate_of_render h
    | unbound h _ hname => exact ⟨_, h, hname⟩

theorem execute_of_render {c : Command} {sql : String} (h : c.render = .ok sql)
    (engine : Engine σ) (s : σ) : c.execute engine s =
      ((c.catalog.execute sql (Placeholder.used sql.toList) engine s).1,
        { c with catalog := (c.catalog.execute sql (Placeholder.used sql.toList) engine s).2.1 },
        (c.catalog.execute sql (Placeholder.used sql.toList) engine s).2.2) := by
  simp only [execute, h]

theorem execute_of_render_error {c : Command} {e : Error} (h : c.render = .error e)
    (engine : Engine σ) (s : σ) : c.execute engine s = (.error e, c, s) := by
  simp only [execute, h]

theorem calls_of_render {c : Command} {sql : String} (h : c.render = .ok sql) (engine : Engine σ)
    (s : σ) :
    c.calls engine s = c.catalog.calls sql (Placeholder.used sql.toList) engine s := by
  rw [calls, execute_of_render h]
  rfl

theorem execute_recording (c : Command) (engine : Engine σ) (s : σ) :
    c.execute engine.recording (s, []) = ((c.execute engine s).1, (c.execute engine s).2.1,
      (c.execute engine s).2.2, c.calls engine s) := by
  cases hrender : c.render with
  | error e =>
    rw [calls, execute_of_render_error hrender, execute_of_render_error hrender]
  | ok sql =>
    rw [calls_of_render hrender, execute_of_render hrender, execute_of_render hrender,
      Catalog.execute_recording]

/-- An execution is refused and makes no call, or the catalog runs the rendered statement. -/
theorem execute_cases (c : Command) (engine : Engine σ) (s : σ) :
    (∃ e, Refusal c e ∧ c.execute engine s = (.error e, c, s) ∧ c.calls engine s = []) ∨
    ∃ sql, c.render = .ok sql ∧ c.catalog.phase = .building ∧
      (∀ name ∈ Placeholder.scan sql.toList, c.catalog.declares name = true) ∧
      (c.execute engine s).2.1 = { c with catalog := { c.catalog with phase := .executed } } ∧
      c.calls engine s =
        (c.catalog.statements sql (Placeholder.used sql.toList)).map .execute := by
  cases hrender : c.render with
  | error e =>
    refine .inl ⟨e, .unrendered hrender, execute_of_render_error hrender engine s, ?_⟩
    rw [calls, execute_of_render_error hrender]
  | ok sql =>
    rw [execute_of_render hrender, calls_of_render hrender]
    have h := c.catalog.execute_cases sql (Placeholder.used sql.toList) engine s
    generalize c.catalog.execute sql (Placeholder.used sql.toList) engine s = r at h
    generalize c.catalog.calls sql (Placeholder.used sql.toList) engine s = log at h
    cases h with
    | again hphase => exact .inl ⟨_, .again hrender hphase, rfl, rfl⟩
    | unbound name hphase hname =>
      exact .inl ⟨_, .unbound hrender hphase (leastUndeclared_of_find? hname), rfl, rfl⟩
    | ran hphase hused =>
      refine .inr ⟨sql, rfl, hphase, fun name hname => ?_, rfl, rfl⟩
      exact hused name (Placeholder.mem_used.mpr hname)

/-- An execution of a reachable command calls the engine only if everything is in order, and then in
full; without a call it changes neither the command nor the engine, and says why. -/
theorem execute_guarded {c : Command} (h : c.Reachable) (engine : Engine σ) (s : σ) :
    (c.calls engine s ≠ [] → Executed c (c.calls engine s) (c.execute engine s).2.1) ∧
    (c.calls engine s = [] → Refused c (c.execute engine s).1 (c.execute engine s).2.1 ∧
      (c.execute engine s).2.2 = s) ∧
    c.execute engine.recording (s, []) = ((c.execute engine s).1, (c.execute engine s).2.1,
      (c.execute engine s).2.2, c.calls engine s) := by
  refine ⟨?_, ?_, execute_recording c engine s⟩
  · intro hcalls
    rcases execute_cases c engine s with ⟨_, _, _, hnone⟩ | ⟨sql, hsql, hphase, hused, hd, hlog⟩
    · exact absurd hnone hcalls
    obtain ⟨hbatch, hsingle, _⟩ :=
      Catalog.length_statements sql (Placeholder.used sql.toList) h.catalog.valid
    have hlength : (c.calls engine s).length =
        (c.catalog.statements sql (Placeholder.used sql.toList)).length := by
      rw [hlog, List.length_map]
    refine ⟨hphase, ⟨sql, hsql, hused, fun call hcall => ?_⟩, ?_, ?_, hd⟩
    · rw [hlog] at hcall
      obtain ⟨st, hst, rfl⟩ := List.mem_map.mp hcall
      exact ⟨st.binds, by rw [← Catalog.sql_statements c.catalog sql _ st hst]⟩
    · rw [hlength]
      exact hbatch
    · rw [hlength]
      exact hsingle
  · intro hcalls
    rcases execute_cases c engine s with ⟨e, hrefusal, he, _⟩ | ⟨sql, _, _, _, _, hlog⟩
    · rw [he]
      exact ⟨hrefusal.refused, rfl⟩
    · -- A run makes at least one call, since a number of rows is at least one.
      obtain ⟨_, _, hpos⟩ :=
        Catalog.length_statements sql (Placeholder.used sql.toList) h.catalog.valid
      rw [hcalls] at hlog
      have := congrArg List.length hlog
      rw [List.length_map, List.length_nil] at this
      omega

/-- Two rows, of which the engine refuses one, are sent at once when the last name is declared, and
not again. -/
theorem execute_guarded_rows :
    let text := "insert into t values (:id, ':no', :tag)"
    let c := ((ofText text).declare (.array "id" [.int 1, .int 2])).2
    let d := (c.declare (.scalar "tag" .null)).2
    let engine := Engine.scripted ⟨none, none, none⟩
    let script : List (Except Engine.Fault Engine.Outcome) :=
      [.error ⟨.uniqueViolation, some 2067, "id"⟩]
    let e := (d.execute engine script).2.1
    c.Reachable ∧ d.Reachable ∧ e.Reachable ∧
      c.calls engine script = [] ∧ d.calls engine script ≠ [] ∧ e.calls engine script = [] ∧
      Refused c (c.execute engine script).1 (c.execute engine script).2.1 ∧
      Executed d (d.calls engine script) e ∧
      Refused e (e.execute engine script).1 (e.execute engine script).2.1 := by
  intro text c d engine script e
  have hc : c.Reachable := ⟨_, .ofText text, .single (.declare _)⟩
  have hd : d.Reachable := ⟨_, .ofText text, .tail (.single (.declare _)) (.declare _)⟩
  have he : e.Reachable := ⟨_, .ofText text,
    .tail (.tail (.single (.declare _)) (.declare _)) (.execute engine script)⟩
  have hccalls : c.calls engine script = [] := List.length_eq_zero_iff.mp (by decide +kernel)
  have hdcalls : d.calls engine script ≠ [] := List.ne_nil_of_length_pos (by decide +kernel)
  have hecalls : e.calls engine script = [] := List.length_eq_zero_iff.mp (by decide +kernel)
  exact ⟨hc, hd, he, hccalls, hdcalls, hecalls, ((execute_guarded hc engine script).2.1 hccalls).1,
    (execute_guarded hd engine script).1 hdcalls,
    ((execute_guarded he engine script).2.1 hecalls).1⟩

end SqlTemplate.Command
