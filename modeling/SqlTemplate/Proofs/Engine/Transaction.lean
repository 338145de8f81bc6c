import SqlTemplate.Engine.Transaction
import SqlTemplate.Proofs.Catalog.Execution
/-!
The calls of a transaction scope.

The calls are those that the recording engine writes down, from a scope that runs a list of
statements. What is proved:
  1. `ended_endScope`: the end of a scope makes the calls of one of four ways to end, `Ended`.
  2. `leaveScope_commitScope`, `leaveScope_rollbackScope`: leaving a scope that has been committed or
     rolled back makes no call, also if that failed.
  3. `transact_recording`: a scope begins, executes its statements in order and ends in one of the
     four ways, or has only tried to begin.
-/

namespace SqlTemplate.Engine

variable {σ : Type} (engine : Engine σ)

/-- How a scope ends from a state: what was asked for, the answer, the state that is left and the
calls. Every way makes one rollback, but for a commit that succeeds. -/
inductive Ended (s : σ) : Ending → Except Fault Unit → σ → List Call → Prop
  | committed {t : σ} (h : engine.commit s = (.ok (), t)) : Ended s .commit (.ok ()) t [.commit]
  | commitFailed {f : Fault} {answer : Except Fault Unit} {t u : σ}
      (h : engine.commit s = (.error f, t)) (hrollback : engine.rollback t = (answer, u)) :
      Ended s .commit (.error f) u [.commit, .rollback]
  | rolledBack {answer : Except Fault Unit} {t : σ} (h : engine.rollback s = (answer, t)) :
      Ended s .rollback answer t [.rollback]
  | left {answer : Except Fault Unit} {t : σ} (h : engine.rollback s = (answer, t)) :
      Ended s .leave (.ok ()) t [.rollback]

/-- After a commit, also a failed one, nothing is left to roll back. -/
theorem leaveScope_commitScope (s : σ) :
    leaveScope engine (commitScope engine s).2.1 (commitScope engine s).2.2 =
      (commitScope engine s).2.2 := by
  unfold commitScope
  split <;> rfl

/-- Neither is after a rollback, also a failed one. -/
theorem leaveScope_rollbackScope (s : σ) :
    leaveScope engine (rollbackScope engine s).2.1 (rollbackScope engine s).2.2 =
      (rollbackScope engine s).2.2 := rfl

theorem endScope_commit (s : σ) : endScope engine .commit s =
    ((commitScope engine s).1, (commitScope engine s).2.2) := by
  simp only [endScope, leaveScope_commitScope]

theorem endScope_rollback (s : σ) : endScope engine .rollback s = engine.rollback s := rfl

theorem endScope_leave (s : σ) : endScope engine .leave s = (.ok (), (engine.rollback s).2) := rfl

/-- The end of a scope makes the calls of one of the ways to end. -/
theorem ended_endScope (ending : Ending) (s : σ) :
    ∃ answer t calls, Ended engine s ending answer t calls ∧
      endScope engine ending s = (answer, t) ∧
      ∀ log, endScope engine.recording ending (s, log) = (answer, t, log ++ calls) := by
  cases ending with
  | commit =>
    simp only [endScope_commit]
    rcases hcommit : engine.commit s with ⟨f | _, t⟩
    · rcases hrollback : engine.rollback t with ⟨answer, u⟩
      exact ⟨_, _, _, .commitFailed hcommit hrollback, by simp [commitScope, hcommit, hrollback],
        fun log => by simp [commitScope, recording, hcommit, hrollback]⟩
    · exact ⟨_, _, _, .committed hcommit, by simp [commitScope, hcommit],
        fun log => by simp [commitScope, recording, hcommit]⟩
  | rollback =>
    rcases hrollback : engine.rollback s with ⟨answer, t⟩
    exact ⟨_, _, _, .rolledBack hrollback, hrollback,
      fun log => by simp [endScope_rollback, recording, hrollback]⟩
  | leave =>
    rcases hrollback : engine.rollback s with ⟨answer, t⟩
    exact ⟨_, _, _, .left hrollback, by rw [endScope_leave, hrollback],
      fun log => by simp [endScope_leave, recording, hrollback]⟩

/-- A scope that cannot begin makes no other call. Any other begins, executes its statements in order
and ends in one of the ways to end, in which the fault of a failed commit is the answer. Leaving a
scope that was committed or rolled back adds no call. -/
theorem transact_recording (sts : List Statement) (ending : Ending) (s : σ) :
    ((∃ f t, engine.start s = (.error f, t) ∧
      transact engine.recording (engine.recording.runAll sts) ending (s, []) =
        (.error f, t, [.start])) ∨
    ∃ t answer u calls, engine.start s = (.ok (), t) ∧
      Ended engine (engine.runAll sts t).2 ending answer u calls ∧
      transact engine.recording (engine.recording.runAll sts) ending (s, []) =
        (.ok ((engine.runAll sts t).1, answer), u, .start :: sts.map .execute ++ calls)) ∧
    ∀ r : σ × List Call,
      leaveScope engine.recording (commitScope engine.recording r).2.1
        (commitScope engine.recording r).2.2 = (commitScope engine.recording r).2.2 ∧
      leaveScope engine.recording (rollbackScope engine.recording r).2.1
        (rollbackScope engine.recording r).2.2 = (rollbackScope engine.recording r).2.2 := by
  refine ⟨?_, fun r => ⟨leaveScope_commitScope _ r, leaveScope_rollbackScope _ r⟩⟩
  rcases hstart : engine.start s with ⟨f | _, t⟩
  · exact .inl ⟨f, t, rfl, by simp [transact, recording, hstart]⟩
  · obtain ⟨answer, u, calls, hended, _, hend⟩ :=
      ended_endScope engine ending (engine.runAll sts t).2
    refine .inr ⟨t, answer, u, calls, rfl, hended, ?_⟩
    have hbegin : engine.recording.start (s, []) = (.ok (), t, [.start]) := by
      simp [recording, hstart]
    simp only [transact, hbegin, runAll_recording, List.singleton_append, hend]

end SqlTemplate.Engine
