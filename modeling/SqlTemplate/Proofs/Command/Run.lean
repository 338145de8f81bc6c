import SqlTemplate.Command
import SqlTemplate.Proofs.Catalog.Invariant
/-!
Runs of a command. A run starts from the command of a text, with or without a number of rows, and
takes any number of calls, each of them accepted or refused. Whatever the command does, its catalog
goes through a run of its own (`Run.catalog`), so that all that is known of reachable catalogs is
known of the catalogs of reachable commands.
-/

namespace SqlTemplate.Command

open Relation (ReflTransGen)

variable {c d : Command}

/-- A command that a run starts from. -/
inductive Initial : Command → Prop
  | ofText (text : String) : Initial (ofText text)
  | withCount (text : String) (n : Nat) (c : Command) (h : withCount text n = .ok c) : Initial c

/-- One call on a command, whatever its answer. -/
inductive Step (c : Command) : Command → Prop
  | declare (d : Declaration) : Step c (c.declare d).2
  | bindList (name : String) (values : List Value) : Step c (c.bindList name values).2
  | setText (text : String) : Step c (c.setText text)
  | execute {σ : Type} (engine : Engine σ) (s : σ) : Step c (c.execute engine s).2.1

abbrev Run : Command → Command → Prop := ReflTransGen Step

def Reachable (c : Command) : Prop := ∃ c₀, Initial c₀ ∧ Run c₀ c

theorem Initial.catalog (h : Initial c) : Catalog.Initial c.catalog := by
  cases h with
  | ofText text => exact .empty
  | withCount text n c h =>
    unfold Command.withCount at h
    split at h
    · rename_i catalog hcatalog
      cases h
      exact .withCount n catalog hcatalog
    · cases h

theorem run_bindNumbered (catalog : Catalog) (name : String) (i : Nat) (values : List Value) :
    Catalog.Run catalog (bindNumbered catalog name i values).2 := by
  induction values generalizing catalog i with
  | nil => exact .refl
  | cons v rest ih =>
    have hstep : Catalog.Step catalog (catalog.bindScalar (Placeholder.numbered name i) v).2 :=
      .declare (.scalar _ v)
    unfold bindNumbered
    rcases hb : catalog.bindScalar (Placeholder.numbered name i) v with ⟨e | u, d⟩ <;>
      rw [hb] at hstep
    · exact .single hstep
    · exact .head hstep (ih d (i + 1))

theorem bindList_catalog (c : Command) (name : String) (values : List Value) :
    (c.bindList name values).2.catalog = (bindNumbered c.catalog name 0 values).2 := by
  unfold bindList
  rcases bindNumbered c.catalog name 0 values with ⟨e | u, catalog⟩ <;> rfl

theorem Step.catalog (h : Step c d) : Catalog.Run c.catalog d.catalog := by
  cases h with
  | declare d => exact .single (.declare d)
  | bindList name values =>
    rw [bindList_catalog]
    exact run_bindNumbered c.catalog name 0 values
  | setText text => exact .single .reset
  | execute engine s =>
    unfold Command.execute
    cases c.render with
    | error e => exact .refl
    | ok sql => exact .single (.execute sql (Placeholder.used sql.toList) engine s)

theorem Run.catalog (h : Run c d) : Catalog.Run c.catalog d.catalog := by
  induction h with
  | refl => exact .refl
  | tail _ hs ih => exact ih.trans hs.catalog

theorem Reachable.catalog (h : Reachable c) : Catalog.Reachable c.catalog := by
  obtain ⟨c₀, h₀, hr⟩ := h
  exact ⟨c₀.catalog, h₀.catalog, Run.catalog hr⟩

end SqlTemplate.Command
