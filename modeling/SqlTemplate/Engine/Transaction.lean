import SqlTemplate.Engine
/-!
Transaction scopes. A scope begins a transaction, runs a body on the engine and ends it in one of
three ways. A commit that fails is rolled back, and a scope that is left while its transaction is
active rolls it back.
-/

namespace SqlTemplate.Engine

variable {σ α : Type}

/-- How a scope's transaction stands. -/
inductive ScopeState where
  | active
  | committed
  | rolledBack
  deriving DecidableEq, Repr

/-- How a scope is asked to end; one that is left ends only by being left. -/
inductive Ending where
  | commit
  | rollback
  | leave
  deriving DecidableEq, Repr

/-- Commits the transaction. After a commit that fails it is rolled back, and the fault of the
commit stays the answer. -/
def commitScope (engine : Engine σ) (s : σ) : Except Fault Unit × ScopeState × σ :=
  match engine.commit s with
  | (.ok (), t) => (.ok (), .committed, t)
  | (.error f, t) => (.error f, .rolledBack, (engine.rollback t).2)

def rollbackScope (engine : Engine σ) (s : σ) : Except Fault Unit × ScopeState × σ :=
  let (answer, t) := engine.rollback s
  (answer, .rolledBack, t)

/-- Leaves the scope: an active transaction is rolled back, whatever comes of it. -/
def leaveScope (engine : Engine σ) (state : ScopeState) (s : σ) : σ :=
  match state with
  | .active => (engine.rollback s).2
  | _ => s

/-- Ends a scope as asked and leaves it. -/
def endScope (engine : Engine σ) (ending : Ending) (s : σ) : Except Fault Unit × σ :=
  let (answer, state, t) := match ending with
    | .commit => commitScope engine s
    | .rollback => rollbackScope engine s
    | .leave => (.ok (), .active, s)
  (answer, leaveScope engine state t)

/-- Runs a body in a transaction: the fault of the begin, or what the body gave and how the end
went. -/
def transact (engine : Engine σ) (body : σ → α × σ) (ending : Ending) (s : σ) :
    Except Fault (α × Except Fault Unit) × σ :=
  match engine.start s with
  | (.error f, t) => (.error f, t)
  | (.ok (), t) =>
    let (a, u) := body t
    let (answer, v) := endScope engine ending u
    (.ok (a, answer), v)

end SqlTemplate.Engine
