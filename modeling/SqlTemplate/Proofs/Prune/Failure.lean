import SqlTemplate.Proofs.Prune.Selection
/-!
What can be wrong with a template.

A template is refused for its text, for the text of a condition, or for a name without a value in a
condition or outside of one, and for nothing else (`ofTemplate_of_prune`). The reason of a condition
or of a member is the reason of the whole, as no part mends what another one found.
-/

namespace SqlTemplate.Template

/-- The causes for which a template is refused. -/
inductive OfTemplate : Error → Prop
  | syntaxFault (expression : String) (offset : Nat) (fault : Condition.Fault) :
      OfTemplate (.syntaxFault expression offset fault)
  | malformed (line column : Nat) (fault : Fault) : OfTemplate (.malformed line column fault)
  | unknownVariable (name : String) : OfTemplate (.unknownVariable name)
  | unknownParameter (name : String) : OfTemplate (.unknownParameter name)

theorem ofTemplate_of_holds {context : Option Context} {source : String} {e : Error}
    (h : Condition.holds context source = .error e) : OfTemplate e := by
  unfold Condition.holds at h
  split at h
  · rename_i f hp
    cases h
    unfold Condition.parse at hp
    split at hp
    · cases hp
    · cases hp
      exact .syntaxFault ..
  · split at h
    · cases h
      exact .unknownVariable _
    · cases h

theorem ofTemplate_of_guardHolds {values : Context} {repeats : Repeats}
    {condition : Option String} {body : List Node} {e : Error}
    (h : guardHolds values repeats condition body = .error e) : OfTemplate e := by
  cases condition with
  | none => cases h
  | some source => exact ofTemplate_of_holds h

/-- What cannot be rendered has a condition or an expansion for a reason. -/
theorem Unrendered.ofTemplate {values : Context} {repeats : Repeats} {nodes : List Node} {e : Error}
    (h : Unrendered values repeats nodes e) : OfTemplate e := by
  cases h with
  | expansion => exact .unknownParameter _
  | guard hg => exact ofTemplate_of_guardHolds hg

/-- A template is refused for its text or its names. -/
theorem ofTemplate_of_prune {source : String} {values : Context} {repeats : Repeats} {e : Error}
    (h : prune source values repeats = .error e) : OfTemplate e := by
  unfold prune at h
  split at h
  · rename_i f hp
    cases h
    unfold parse at hp
    split at hp
    · cases hp
    · cases hp
      exact .malformed ..
  · unfold pruneNodes at h
    split at h
    · cases h
      exact .unknownParameter _
    · exact (unrendered_of_render _ h).ofTemplate

end SqlTemplate.Template
