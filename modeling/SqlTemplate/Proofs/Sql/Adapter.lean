import SqlTemplate.Sql.Adapter
/-!
How an execution goes through a library.

What is proved:
  1. `execute_of_assoc`, `execute_of_compile_error`, `execute_of_bind_error`, `execute_of_runs`: where
     an execution is refused before anything runs, and what it runs if it is not.
  2. `execute_ok`: what was run if an execution succeeds; `Runs.unique` says that this is one statement
     on one connection.
  3. `bound_of_bindAll`: what is run is what was compiled, with data bound to its slots.
-/

namespace SqlTemplate.Sql

open Engine (Bind Fault Outcome)

/-! ## Associative arrays -/

def IsAssoc (b : Bind) : Prop := ∃ entries, b.carried = .assoc entries

section
variable {binds : List Bind}

theorem exists_firstAssoc? (h : ∃ b ∈ binds, IsAssoc b) :
    ∃ b ∈ binds, IsAssoc b ∧ firstAssoc? binds = some b := by
  obtain ⟨a, ha, entries, hentries⟩ := h
  have hsome : (firstAssoc? binds).isSome = true :=
    List.find?_isSome.mpr ⟨a, ha, by rw [hentries]⟩
  obtain ⟨b, hfirst⟩ := Option.isSome_iff_exists.mp hsome
  refine ⟨b, List.mem_of_find?_eq_some hfirst, ?_, hfirst⟩
  have hcarried := List.find?_some hfirst
  split at hcarried
  · rename_i entries hentries
    exact ⟨entries, hentries⟩
  · cases hcarried

theorem firstAssoc?_eq_none (h : ∀ b ∈ binds, ¬ IsAssoc b) : firstAssoc? binds = none := by
  refine List.find?_eq_none.mpr fun b hb => ?_
  split
  · rename_i entries hentries
    exact absurd ⟨entries, hentries⟩ (h b hb)
  · exact Bool.false_ne_true

end

/-! ## Executions -/

namespace Library

variable {σ π : Type} {lib : Library σ π} {st : Engine.Statement} {s t u : σ} {p q r : π}
  {binds : List Bind}

theorem eq_ok_of_any {ε α : Type} {x : Except ε α} {P : α → Bool} (h : x.toOption.any P = true) :
    ∃ a, x = .ok a ∧ P a = true := by
  cases x with
  | error e => cases h
  | ok a => exact ⟨a, rfl, h⟩

/-- A statement is another one with data bound to some of its slots. -/
inductive Bound (lib : Library σ π) : π → π → Prop
  | refl (p : π) : Bound lib p p
  | bind {p q r : π} {i : Nat} {d : Datum} (h : lib.bind p i d = .ok q) (hq : Bound lib q r) :
    Bound lib p r

/-- An execution runs the statement `q`, which was compiled from its text and filled from its binds,
on the connection `t`. -/
structure Runs (lib : Library σ π) (st : Engine.Statement) (s : σ) (q : π) (t : σ) : Prop where
  unassociated : firstAssoc? st.binds = none
  filled : ∃ p, lib.compile st.sql s = (.ok p, t) ∧ lib.bindAll p st.binds = .ok q

theorem execute_of_assoc {b : Bind} (hassoc : firstAssoc? st.binds = some b) :
    lib.execute st s = (.error (assocFault b.name), s) := by
  simp only [execute, hassoc]

theorem execute_of_compile_error {f : Failure} (hassoc : firstAssoc? st.binds = none)
    (hcompile : lib.compile st.sql s = (.error f, t)) : lib.execute st s = (.error f.fault, t) := by
  simp only [execute, hassoc, hcompile]

theorem execute_of_bind_error {f : Fault} (hassoc : firstAssoc? st.binds = none)
    (hcompile : lib.compile st.sql s = (.ok p, t)) (hbind : lib.bindAll p st.binds = .error f) :
    lib.execute st s = (.error f, t) := by
  simp only [execute, hassoc, hcompile, hbind]

theorem execute_of_runs (h : lib.Runs st s q t) :
    lib.execute st s = lib.perform q st.binds t := by
  obtain ⟨p, hcompile, hbind⟩ := h.filled
  simp only [execute, h.unassociated, hcompile, hbind]

/-- An execution that runs nothing fails, and at most its text was compiled. -/
theorem runs_or_refused (lib : Library σ π) (st : Engine.Statement) (s : σ) :
    (∃ q t, lib.Runs st s q t) ∨
      ∃ f, lib.execute st s = (.error f, s) ∨
        lib.execute st s = (.error f, (lib.compile st.sql s).2) := by
  cases hassoc : firstAssoc? st.binds with
  | some b => exact .inr ⟨_, .inl (execute_of_assoc hassoc)⟩
  | none =>
    rcases hcompile : lib.compile st.sql s with ⟨f | p, t⟩
    · exact .inr ⟨_, .inr (execute_of_compile_error hassoc hcompile)⟩
    · cases hbind : lib.bindAll p st.binds with
      | error f => exact .inr ⟨f, .inr (execute_of_bind_error hassoc hcompile hbind)⟩
      | ok q => exact .inl ⟨q, t, hassoc, p, hcompile, hbind⟩

theorem execute_ok {o : Outcome} (h : lib.execute st s = (.ok o, u)) :
    ∃ q t, lib.Runs st s q t ∧ lib.perform q st.binds t = (.ok o, u) := by
  rcases runs_or_refused lib st s with ⟨q, t, hruns⟩ | ⟨f, hrefused | hrefused⟩
  · exact ⟨q, t, hruns, execute_of_runs hruns ▸ h⟩
  · cases hrefused.symm.trans h
  · cases hrefused.symm.trans h

/-- What a statement runs, and on which connection, is one. -/
theorem Runs.unique {q' : π} {t' : σ} (h : lib.Runs st s q t) (h' : lib.Runs st s q' t') :
    q' = q ∧ t' = t := by
  obtain ⟨p, hcompile, hbind⟩ := h.filled
  obtain ⟨p', hcompile', hbind'⟩ := h'.filled
  cases hcompile.symm.trans hcompile'
  cases hbind.symm.trans hbind'
  exact ⟨rfl, rfl⟩

/-- A statement that succeeds was run in one of two ways, by whether its answer has columns. -/
theorem perform_ok {o : Outcome} (h : lib.perform q binds t = (.ok o, u)) :
    (lib.columns q = [] ∧ lib.run q t = (.ok o.rowsAffected, u)) ∨
      lib.columns q ≠ [] ∧ (∃ rows, lib.query q t = (.ok rows, u)) ∧
        o.rowsAffected = if lib.isReadOnly q then 0 else lib.changes u := by
  unfold perform at h
  split at h
  · rename_i hcolumns
    rcases hrun : lib.run q t with ⟨f | changed, u'⟩ <;> rw [hrun] at h <;> cases h
    exact .inl ⟨List.isEmpty_iff.mp hcolumns, rfl⟩
  · rename_i hcolumns
    rcases hquery : lib.query q t with ⟨f | rows, u'⟩ <;> rw [hquery] at h <;> cases h
    exact .inr ⟨mt List.isEmpty_iff.mpr hcolumns, ⟨rows, rfl⟩, rfl⟩

theorem perform_state (lib : Library σ π) (q : π) (binds : List Bind) (t : σ) :
    (lib.perform q binds t).2 =
      if (lib.columns q).isEmpty then (lib.run q t).2 else (lib.query q t).2 := by
  unfold perform
  split
  · rcases lib.run q t with ⟨f | changed, u⟩ <;> rfl
  · rcases lib.query q t with ⟨f | rows, u⟩ <;> rfl

theorem bound_of_bindEach {bound bound' : List Bool}
    (h : lib.bindEach p bound binds = .ok (q, bound')) : lib.Bound p q := by
  induction binds generalizing p bound with
  | nil =>
    cases h
    exact .refl _
  | cons b bs ih =>
    rw [bindEach] at h
    split at h
    · exact ih h
    · split at h
      · cases h
      · exact ih h
      · rename_i i _
        cases hd : Datum.ofValue _ >>= lib.bind p i with
        | error f =>
          rw [hd] at h
          cases h
        | ok r =>
          rw [hd] at h
          cases hv : Datum.ofValue _ with
          | error f =>
            rw [hv] at hd
            cases hd
          | ok d =>
            rw [hv] at hd
            exact .bind hd (ih h)

theorem bound_of_bindAll (h : lib.bindAll p binds = .ok q) : lib.Bound p q := by
  unfold bindAll at h
  split at h
  · cases h
  · rename_i hbind
    split at h <;> cases h
    exact bound_of_bindEach hbind

end Library

end SqlTemplate.Sql
