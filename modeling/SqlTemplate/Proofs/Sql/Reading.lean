import SqlTemplate.Sql.Parser
/-!
Which texts are read as statements that begin or end a transaction: only those whose first word says
so (`isTransaction_of_read`). All other statements are about tables, whatever follows in them.
-/

namespace SqlTemplate.Sql

def Statement.isTransaction : Statement → Bool
  | .start | .commit | .rollback => true
  | _ => false

/-- What is read, if anything is, is a statement about tables. -/
def Tabular (x : Except Problem (Statement × List Lexeme)) : Prop :=
  ∀ r, x = .ok r → r.1.isTransaction = false

namespace Tabular

theorem ok {s : Statement} (hs : s.isTransaction = false) (rest : List Lexeme) :
    Tabular (.ok (s, rest)) := by
  rintro _ ⟨⟩
  exact hs

theorem error (p : Problem) : Tabular (.error p) := nofun

theorem bind {α : Type} {x : Except Problem α} {f : α → Except Problem (Statement × List Lexeme)}
    (h : ∀ a, Tabular (f a)) : Tabular (x >>= f) := by
  cases x with
  | error p => exact error p
  | ok a => exact h a

end Tabular

section
variable (ts : List Lexeme)

theorem tabular_create (taken : String → Bool) : Tabular (create taken ts) := by
  unfold create
  refine .bind fun _ => ?_
  split
  -- With and without `if not exists`, and then alike.
  · refine .bind fun _ => .bind fun _ => .bind fun _ => .bind fun _ => ?_
    split
    · exact .error _
    · exact .bind fun _ => .ok rfl _
  · refine .bind fun _ => .bind fun _ => .bind fun _ => ?_
    split
    · exact .error _
    · exact .bind fun _ => .ok rfl _

theorem tabular_insert : Tabular (insert ts) := by
  unfold insert
  refine .bind fun _ => .bind fun _ => ?_
  simp only
  -- With and without names of columns, and then alike.
  split <;> exact .bind fun _ => .bind fun _ => .bind fun _ => .bind fun _ => .ok rfl _

theorem tabular_update : Tabular (update ts) :=
  .bind fun _ => .bind fun _ => .bind fun _ => .bind fun _ => .bind fun _ => .ok rfl _

theorem tabular_delete : Tabular (delete ts) :=
  .bind fun _ => .bind fun _ => .bind fun _ => .bind fun _ => .ok rfl _

theorem tabular_select : Tabular (select ts) :=
  .bind fun _ => .bind fun _ => .bind fun _ => .bind fun _ => .ok rfl _

end

def transactionVerbs : List String := ["begin", "commit", "end", "rollback"]

/-- A statement is about tables unless its first word says that it is about a transaction. -/
theorem tabular_statement (taken : String → Bool) {l : Lexeme} (rest : List Lexeme)
    (hl : l.kind = .word → lower l.text ∉ transactionVerbs) :
    Tabular (statement taken (l :: rest)) := by
  unfold statement
  simp only
  split
  · exact .error _
  · rename_i hkind
    have hverb := hl (Decidable.not_not.mp hkind)
    split
    · exact tabular_create rest taken
    · exact tabular_insert rest
    · exact tabular_update rest
    · exact tabular_delete rest
    · exact tabular_select rest
    · rename_i hword
      exact absurd (hword ▸ by decide) hverb
    · rename_i hword
      exact absurd (hword ▸ by decide) hverb
    · rename_i hword
      exact absurd (hword ▸ by decide) hverb
    · rename_i hword
      exact absurd (hword ▸ by decide) hverb
    · exact .error _

def firstWord? (sql : String) : Option String :=
  match (numberSlots [] (firstStatement sql.toList).1).1 with
  | l :: _ => if l.kind = .word then some (lower l.text) else none
  | [] => none

/-- Whether the first statement of a text does something else than to begin or end a transaction. -/
def isPlain (sql : String) : Bool :=
  !(firstWord? sql).any ["begin", "commit", "end", "rollback"].contains

/-- A plain text is read as a statement that does not begin or end a transaction. -/
theorem isTransaction_of_read {taken : String → Bool} {sql : String} {s : Statement} {slots : Slots}
    (hsql : isPlain sql = true) (h : read taken sql = .ok (s, slots)) :
    s.isTransaction = false := by
  unfold isPlain firstWord? at hsql
  unfold read at h
  simp only at h
  cases hlexemes : (numberSlots [] (firstStatement sql.toList).1).1 with
  | nil =>
    rw [hlexemes] at h
    cases h
    rfl
  | cons l ls =>
    rw [hlexemes] at h hsql
    have hl : l.kind = .word → lower l.text ∉ transactionVerbs := fun hkind hverb => by
      simp only [hkind, if_true, Option.any_some, Bool.not_eq_true', List.contains_eq_mem,
        decide_eq_false_iff_not] at hsql
      exact hsql hverb
    have htabular := tabular_statement taken (ls ++ [(firstStatement sql.toList).2]) hl
    rw [List.isEmpty_cons, if_neg Bool.false_ne_true] at h
    split at h
    · cases h
    · rename_i hread
      split at h <;> cases h
      exact htabular _ hread

end SqlTemplate.Sql
