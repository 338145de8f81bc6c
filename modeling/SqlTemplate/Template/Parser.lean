import SqlTemplate.Template
import SqlTemplate.Template.Event
/-!
Reading templates. The children of one root element are texts, chains and, directly in a branch
without a condition, expansions. White space between the members of a chain is moved behind it.
-/

namespace SqlTemplate.Template

/-- Which elements may stand among children: expansions only in a branch without a condition. -/
inductive Scope where
  | root
  | implicitBranch
  | body
  deriving DecidableEq, Repr

abbrev Fewer (es : List Located) := { r : List Located // r.length < es.length }

abbrev NoMore (es : List Located) := { r : List Located // r.length ≤ es.length }

/-- The condition among the attributes of a branch, or else `c`. -/
def condition (tag : String) (here : List Char) (c : Option String) :
    List (String × String) → Except Failure (Option String)
  | [] => .ok c
  | (name, value) :: rest =>
    if name ≠ "c" then .error ⟨.unknownAttribute name tag, here⟩
    else if Text.allBlank value.toList then .error ⟨.emptyCondition tag, here⟩
    else condition tag here (some value) rest

/-- The separator among the attributes of an expansion, or else `sep`. -/
def separator (here : List Char) (sep : String) :
    List (String × String) → Except Failure String
  | [] => .ok sep
  | (name, value) :: rest =>
    if name ≠ "sep" then .error ⟨.unknownAttribute name "a", here⟩
    else separator here value rest

/-- The text of an element that holds text only, up to its end tag. -/
def textOnly (opened : List Char) (es : List Located) : Except Failure (String × Fewer es) :=
  match es with
  | [] => .error ⟨.unclosed "a", opened⟩
  | e :: r =>
    match e.event with
    | .text s =>
      match textOnly opened r with
      | .error err => .error err
      | .ok (t, ⟨r', h⟩) => .ok (s ++ t, ⟨r', Nat.lt_succ_of_lt h⟩)
    | .stop name =>
      if name = "a" then .ok ("", ⟨r, by simp⟩) else .error ⟨.notAPlaceholder, e.here⟩
    | .start .. => .error ⟨.notAPlaceholder, e.here⟩

/-- The name that the text of an expansion gives: a colon and the name, with white space around. -/
def expansionName? (s : String) : Option String :=
  match Text.trim s.toList with
  | ':' :: name => if Placeholder.isName name then some (String.ofList name) else none
  | _ => none

/-- An expansion whose start tag was read. -/
def expansion (attributes : List (String × String)) (empty : Bool) (here : List Char)
    (es : List Located) : Except Failure (Node × NoMore es) :=
  match separator here defaultSeparator attributes with
  | .error e => .error e
  | .ok sep =>
    if empty then .error ⟨.notAPlaceholder, here⟩
    else
      match textOnly here es with
      | .error e => .error e
      | .ok (s, ⟨r, h⟩) =>
        match expansionName? s with
        | some name => .ok (.expand name sep, ⟨r, Nat.le_of_lt h⟩)
        | none => .error ⟨.notAPlaceholder, here⟩

/-- The start tag of a further member of a chain, with the white space in front of it. -/
structure NextMember (es : List Located) where
  gap : String
  isElse : Bool
  attributes : List (String × String)
  empty : Bool
  here : List Char
  rest : Fewer es

/-- The further member of a chain, if only white space stands before its start tag. -/
def nextMember? (es : List Located) : Option (NextMember es) :=
  match es with
  | [] => none
  | e :: r =>
    match e.event with
    | .text s =>
      if Text.allBlank s.toList then
        (nextMember? r).map fun m =>
          { m with gap := s ++ m.gap, rest := ⟨m.rest.1, Nat.lt_succ_of_lt m.rest.2⟩ }
      else none
    | .start name attributes empty =>
      if name = "elsif" ∨ name = "else" then
        some ⟨"", name = "else", attributes, empty, e.here, ⟨r, by simp⟩⟩
      else none
    | .stop _ => none

mutual

/-- The children of `parent` up to its end tag; `opened` is the source from its start tag on. -/
def children (parent : String) (opened : List Char) (scope : Scope) (es : List Located) :
    Except Failure (List Node × Fewer es) :=
  match es with
  | [] => .error ⟨.unclosed parent, opened⟩
  | e :: r =>
    match e.event with
    | .text s =>
      match children parent opened scope r with
      | .error err => .error err
      | .ok (ns, ⟨r', h⟩) => .ok (consText s ns, ⟨r', Nat.lt_succ_of_lt h⟩)
    | .stop name =>
      if name = parent then .ok ([], ⟨r, by simp⟩) else .error ⟨.wrongEnd parent name, e.here⟩
    | .start name attributes empty =>
      if name = "if" then
        match branch "if" attributes empty e.here r with
        | .error err => .error err
        | .ok (c, body, ⟨r1, h1⟩) =>
          match members r1 with
          | .error err => .error err
          | .ok (rest, gap, ⟨r2, h2⟩) =>
            have h3 : r2.length < (e :: r).length := by simp only [List.length_cons]; omega
            match children parent opened scope r2 with
            | .error err => .error err
            | .ok (ns, ⟨r3, h4⟩) =>
              .ok (.chain (.branch c body rest) :: (if gap.isEmpty then ns else consText gap ns),
                ⟨r3, Nat.lt_trans h4 h3⟩)
      else if name = "a" then
        if scope = .implicitBranch then
          match expansion attributes empty e.here r with
          | .error err => .error err
          | .ok (n, ⟨r1, h1⟩) =>
            match children parent opened scope r1 with
            | .error err => .error err
            | .ok (ns, ⟨r2, h2⟩) => .ok (n :: ns, ⟨r2, by simp only [List.length_cons]; omega⟩)
        else .error ⟨.misplacedExpansion, e.here⟩
      else if name = "elsif" ∨ name = "else" then .error ⟨.strayMember name, e.here⟩
      else .error ⟨.unknownTag name, e.here⟩
termination_by 3 * es.length
decreasing_by all_goals simp only [List.length_cons]; omega

/-- A branch whose start tag was read: its condition and its body. -/
def branch (tag : String) (attributes : List (String × String)) (empty : Bool) (here : List Char)
    (es : List Located) : Except Failure (Option String × List Node × NoMore es) :=
  match condition tag here none attributes with
  | .error err => .error err
  | .ok c =>
    if tag = "elsif" ∧ c.isNone then .error ⟨.noCondition tag, here⟩
    else if empty then .ok (c, [], ⟨es, Nat.le_refl _⟩)
    else
      match children tag here (if c.isNone then .implicitBranch else .body) es with
      | .error err => .error err
      | .ok (body, ⟨r, h⟩) => .ok (c, body, ⟨r, Nat.le_of_lt h⟩)
termination_by 3 * es.length + 1
decreasing_by all_goals omega

/-- The further members of a chain, with the white space between them. -/
def members (es : List Located) : Except Failure (Members × String × NoMore es) :=
  match nextMember? es with
  | none => .ok (.nothing, "", ⟨es, Nat.le_refl _⟩)
  | some m =>
    have hm := m.rest.2
    if m.isElse then
      match m.attributes with
      | (name, _) :: _ => .error ⟨.unknownAttribute name "else", m.here⟩
      | [] =>
        if m.empty then .ok (.otherwise [], m.gap, ⟨m.rest.1, Nat.le_of_lt m.rest.2⟩)
        else
          match children "else" m.here .body m.rest.1 with
          | .error err => .error err
          | .ok (body, ⟨r, h⟩) => .ok (.otherwise body, m.gap, ⟨r, by omega⟩)
    else
      match branch "elsif" m.attributes m.empty m.here m.rest.1 with
      | .error err => .error err
      | .ok (c, body, ⟨r1, h1⟩) =>
        match members r1 with
        | .error err => .error err
        | .ok (rest, gap, ⟨r2, h2⟩) => .ok (.branch c body rest, m.gap ++ gap, ⟨r2, by omega⟩)
termination_by 3 * es.length + 2
decreasing_by all_goals omega

end

/-- The events after white space outside the root element. -/
def skipBlank : List Located → Except Failure (List Located)
  | [] => .ok []
  | e :: r =>
    match e.event with
    | .text s => if Text.allBlank s.toList then skipBlank r else .error ⟨.textOutside, e.here⟩
    | _ => .ok (e :: r)

/-- The children of the root element, which stands alone among white space. -/
def ofEvents (es : List Located) : Except Failure (List Node) :=
  match skipBlank es with
  | .error err => .error err
  | .ok [] => .error ⟨.noRoot, []⟩
  | .ok (e :: r) =>
    match e.event with
    | .start name _ empty =>
      let inside : Except Failure (List Node × List Located) :=
        if empty then .ok ([], r)
        else (children name e.here .root r).map fun (ns, r') => (ns, r'.1)
      match inside with
      | .error err => .error err
      | .ok (ns, r') =>
        match skipBlank r' with
        | .error err => .error err
        | .ok [] => .ok ns
        | .ok (extra :: _) => .error ⟨.contentAfter, extra.here⟩
    | _ => .error ⟨.notTheRoot, e.here⟩

def read (cs : List Char) : Except Failure (List Node) := (events cs).bind ofEvents

end SqlTemplate.Template
