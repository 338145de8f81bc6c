import SqlTemplate.Placeholder
/-!
Templates: SQL text with expansions and chains of guarded branches. The last member of a chain may
be a body without a guard.
-/

namespace SqlTemplate

mutual

/-- A part of a template. An expansion stands for numbered placeholders with a separator between
them; a chain for the body of its first branch whose guard holds. -/
inductive Node where
  | text (s : String)
  | expand (name sep : String)
  | chain (members : Members)

/-- The members of a chain from one on. A branch without a condition is guarded by the values of
the placeholders in its body. -/
inductive Members where
  | nothing
  | otherwise (body : List Node)
  | branch (condition : Option String) (body : List Node) (rest : Members)

end

instance : Inhabited Node := ⟨.text ""⟩

namespace Template

def defaultSeparator : String := ", "

/-- A text in front of nodes; it joins a text that they begin with. -/
def consText (s : String) : List Node → List Node
  | .text t :: ns => .text (s ++ t) :: ns
  | ns => .text s :: ns

/-- Whether a text is taken for a template: its first character that is not white space opens an
element, a comment, a declaration or an instruction. -/
def isTemplate (cs : List Char) : Bool :=
  match Text.trimStart cs with
  | '<' :: c :: _ => Condition.isLetter c || c == '?' || c == '!'
  | _ => false

end Template

end SqlTemplate
