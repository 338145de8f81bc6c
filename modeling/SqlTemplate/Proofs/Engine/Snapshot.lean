import SqlTemplate.Proofs.Engine.Transaction
/-!
Engines that can take back a transaction.

`Transactional` says what an engine does to its data and to the data that it has kept for an open
transaction. What is proved:
  1. `runAll_effect`: a run of statements has the effects of those that succeeded.
  2. `transact_restores`: a scope keeps what its body did if the commit succeeds, and else leaves the
     data that it began with and no open transaction.
  3. `transact_traced`: the executions of a scope are those of its body.
-/

namespace SqlTemplate.Engine

variable {σ δ α : Type}

/-- The statements of a record that succeeded. -/
def succeeded (record : List (Statement × Except Fault Outcome)) : List Statement :=
  (record.filter fun p => p.2.isOk).map Prod.fst

@[simp] theorem succeeded_nil : succeeded [] = [] := rfl

@[simp] theorem succeeded_cons_ok (st : Statement) (o : Outcome)
    (record : List (Statement × Except Fault Outcome)) :
    succeeded ((st, .ok o) :: record) = st :: succeeded record := rfl

@[simp] theorem succeeded_cons_error (st : Statement) (f : Fault)
    (record : List (Statement × Except Fault Outcome)) :
    succeeded ((st, .error f) :: record) = succeeded record := rfl

theorem succeeded_append (xs ys : List (Statement × Except Fault Outcome)) :
    succeeded (xs ++ ys) = succeeded xs ++ succeeded ys := by
  rw [succeeded, List.filter_append, List.map_append]
  rfl

/-- An engine with transactions over its `data`: those that an open transaction began with are `saved`,
and `effect` is what a statement that succeeds does to the data. The statements that are not `plain`,
such as those that begin or end a transaction themselves, are left aside. -/
structure Transactional (engine : Engine σ) (data : σ → δ) (saved : σ → Option δ)
    (effect : δ → Statement → δ) (plain : Statement → Prop) : Prop where
  execute_ok {st : Statement} {o : Outcome} {s t : σ} (hst : plain st)
    (h : engine.execute st s = (.ok o, t)) : data t = effect (data s) st ∧ saved t = saved s
  /-- A statement that fails does nothing. -/
  execute_error {st : Statement} {f : Fault} {s t : σ} (hst : plain st)
    (h : engine.execute st s = (.error f, t)) : data t = data s ∧ saved t = saved s
  start_ok {s t : σ} (h : engine.start s = (.ok (), t)) : data t = data s ∧ saved t = some (data s)
  commit_ok {s t : σ} (h : engine.commit s = (.ok (), t)) : data t = data s
  /-- A commit that fails leaves the transaction open. -/
  commit_error {f : Fault} {d : δ} {s t : σ} (hs : saved s = some d)
    (h : engine.commit s = (.error f, t)) : saved t = some d
  /-- An open transaction can always be rolled back. -/
  rollback {d : δ} {s : σ} (hs : saved s = some d) :
    ∃ t, engine.rollback s = (.ok (), t) ∧ data t = d ∧ saved t = none

section
variable {engine : Engine σ} {data : σ → δ} {saved : σ → Option δ} {effect : δ → Statement → δ}
  {plain : Statement → Prop}

/-- A run of statements has the effects of those that succeeded, in their order. -/
theorem Transactional.runAll_effect (h : Transactional engine data saved effect plain)
    {sts : List Statement} (hsts : ∀ st ∈ sts, plain st) (s : σ) :
    data (engine.runAll sts s).2 =
      (succeeded (sts.zip (engine.runAll sts s).1)).foldl effect (data s) ∧
    saved (engine.runAll sts s).2 = saved s := by
  induction sts generalizing s with
  | nil => exact ⟨rfl, rfl⟩
  | cons st rest ih =>
    have hst := hsts st List.mem_cons_self
    have hrest := fun t => ih (fun st' hst' => hsts st' (List.mem_cons_of_mem st hst')) t
    rcases he : engine.execute st s with ⟨f | o, t⟩
    · obtain ⟨hdata, hsaved⟩ := h.execute_error hst he
      simp only [runAll, he]
      rw [← hdata, ← hsaved]
      exact hrest t
    · obtain ⟨hdata, hsaved⟩ := h.execute_ok hst he
      simp only [runAll, he]
      refine ⟨?_, by rw [(hrest t).2, hsaved]⟩
      rw [(hrest t).1, hdata]
      rfl

/-- Whatever a body does, a scope ends with it if the commit succeeds, and else as it began. -/
theorem Transactional.transact_restores (h : Transactional engine data saved effect plain)
    {body : σ → α × σ} {s t : σ} (hstart : engine.start s = (.ok (), t))
    (hbody : saved (body t).2 = saved t) (ending : Ending) :
    ∃ answer u, transact engine body ending s = (.ok ((body t).1, answer), u) ∧
      (ending = .commit → answer = .ok () → data u = data (body t).2) ∧
      ((ending = .commit → answer ≠ .ok ()) → data u = data s ∧ saved u = none) := by
  -- Whatever the body did, the data that the transaction began with are still saved.
  have hsaved : saved (body t).2 = some (data s) := hbody.trans (h.start_ok hstart).2
  obtain ⟨answer, u, calls, hended, hend, _⟩ := ended_endScope engine ending (body t).2
  refine ⟨answer, u, by simp only [transact, hstart, hend], ?_⟩
  cases hended with
  | committed hcommit => exact ⟨fun _ _ => h.commit_ok hcommit, fun hnot => absurd rfl (hnot rfl)⟩
  | commitFailed hcommit hrollback =>
    obtain ⟨v, hv, hrestored⟩ := h.rollback (h.commit_error hsaved hcommit)
    rw [hrollback] at hv
    cases hv
    exact ⟨fun _ hanswer => absurd hanswer (by simp), fun _ => hrestored⟩
  | rolledBack hrollback | left hrollback =>
    obtain ⟨v, hv, hrestored⟩ := h.rollback hsaved
    rw [hrollback] at hv
    cases hv
    refine ⟨fun hcommit => ?_, fun _ => hrestored⟩
    cases hcommit

end

/-- The calls that begin and end a transaction are not executions. -/
theorem transact_traced (engine : Engine σ) {body : σ → α × σ}
    {traced : σ × List (Statement × Except Fault Outcome) →
      α × σ × List (Statement × Except Fault Outcome)}
    {s t : σ} {record : List (Statement × Except Fault Outcome)}
    (hstart : engine.start s = (.ok (), t))
    (hbody : traced (t, []) = ((body t).1, (body t).2, record)) (ending : Ending) :
    transact engine.traced traced ending (s, []) =
      ((transact engine body ending s).1, (transact engine body ending s).2, record) := by
  have hbegin : engine.traced.start (s, []) = (.ok (), t, []) := by
    simp only [Engine.traced, hstart]
  simp only [transact, hstart, hbegin, hbody]
  generalize (body t).2 = u
  cases ending with
  | commit =>
    rcases hcommit : engine.commit u with ⟨f | _, v⟩ <;>
      simp [endScope_commit, commitScope, Engine.traced, hcommit]
  | rollback => rfl
  | leave => rfl

end SqlTemplate.Engine
