import SqlTemplate.Condition.Token
import SqlTemplate.Template.Fault
import SqlTemplate.Text.Blank
/-!
The events of a template's text: texts with their character references resolved, start tags and end
tags. Comments and processing instructions make no event. An event remembers the source from its
first character on.
-/

namespace SqlTemplate.Template

open Condition (Remaining isLetter isNameChar run)

/-- An event. A start tag may close its element at once. -/
inductive Event where
  | text (s : String)
  | start (name : String) (attributes : List (String × String)) (empty : Bool)
  | stop (name : String)
  deriving DecidableEq

structure Located where
  event : Event
  here : List Char

abbrev Shorter (cs : List Char) := { r : List Char // r.length < cs.length }

def isTagChar (c : Char) : Bool := isNameChar c || c == '-' || c == '.' || c == ':'

/-- The name in front of a text. -/
def name (cs : List Char) : Except Failure (String × Shorter cs) :=
  match cs with
  | [] => .error ⟨.noName, []⟩
  | c :: r =>
    if isLetter c || c = '_' then
      let (more, rest) := run isTagChar r
      .ok (String.ofList (c :: more), ⟨rest.1, Nat.lt_succ_of_le rest.2⟩)
    else .error ⟨.noName, c :: r⟩

def skip (cs : List Char) : Remaining cs := ⟨Text.trimStart cs, Text.length_dropWhile_le _ _⟩

/-! ## Character references -/

/-- The natural that digits of a base denote; a plus may stand in front. -/
def numeral? (base : Nat) (cs : List Char) : Option Nat :=
  let digits := match cs with
    | '+' :: ds => ds
    | ds => ds
  let value (c : Char) : Option Nat :=
    let n := if '0' ≤ c ∧ c ≤ '9' then c.toNat - 48
      else if 'a' ≤ c ∧ c ≤ 'z' then c.toNat - 87
      else if 'A' ≤ c ∧ c ≤ 'Z' then c.toNat - 55
      else base
    if n < base then some n else none
  if digits.isEmpty then none
  else digits.foldl (fun acc c => acc.bind fun n => (value c).map (base * n + ·)) (some 0)

def ofCodePoint? (n : Nat) : Option Char :=
  if n.isValidChar then some (Char.ofNat n) else none

/-- The character that a reference names: by a word, or by its code point in decimal or, after an
`x`, in hexadecimal. -/
def entity? (entity : List Char) : Option Char :=
  if entity = ['l', 't'] then some '<'
  else if entity = ['g', 't'] then some '>'
  else if entity = ['a', 'm', 'p'] then some '&'
  else if entity = ['q', 'u', 'o', 't'] then some '\x22'
  else if entity = ['a', 'p', 'o', 's'] then some '\x27'
  else
    match entity with
    | '#' :: 'x' :: digits | '#' :: 'X' :: digits => (numeral? 16 digits).bind ofCodePoint?
    | '#' :: digits => (numeral? 10 digits).bind ofCodePoint?
    | _ => none

/-- The text of a reference, the ampersand read already: what stands before a semicolon that comes
within ten bytes. -/
def reference? (cs : List Char) : Option (List Char × Remaining cs) :=
  match h : Text.cutAt? [';'] cs with
  | some (entity, rest) =>
    if Text.byteLength entity ≤ 10 then some (entity, ⟨rest, Text.length_cutAt? h⟩) else none
  | none => none

/-- The text with its references resolved; `after` is the source that follows it. -/
def resolved (after : List Char) : List Char → Except Failure (List Char)
  | [] => .ok []
  | c :: cs =>
    if c = '&' then
      match reference? cs with
      | none => .error ⟨.openReference, c :: cs ++ after⟩
      | some (entity, rest) =>
        match entity? entity with
        | none => .error ⟨.unknownReference (String.ofList entity), c :: cs ++ after⟩
        | some d => (resolved after rest.1).map (d :: ·)
    else (resolved after cs).map (c :: ·)
termination_by cs => cs.length
decreasing_by
  · have := rest.2; simp only [List.length_cons]; omega
  · simp only [List.length_cons]; omega

/-! ## Tags -/

/-- Goes past the character `c`; at the end of the source the tag is unfinished. -/
def expect (c : Char) (tag : List Char) (fault : Fault) (cs : List Char) :
    Except Failure (Shorter cs) :=
  match cs with
  | [] => .error ⟨.openTag, tag⟩
  | d :: r => if d = c then .ok ⟨r, Nat.lt_succ_self _⟩ else .error ⟨fault, d :: r⟩

/-- The value of an attribute, quotes included; `key` is the source from its name on. -/
def attributeValue (key cs : List Char) : Except Failure (String × Shorter cs) :=
  match cs with
  | [] => .error ⟨.unquotedValue, []⟩
  | q :: r =>
    if q = '\x27' || q = '\x22' then
      match h : Text.cutAt? [q] r with
      | none => .error ⟨.openValue, key⟩
      | some (raw, rest) =>
        if raw.contains '<' then .error ⟨.bracketInValue, r⟩
        else
          match resolved (q :: rest) raw with
          | .error e => .error e
          | .ok value =>
            .ok (String.ofList value, ⟨rest, Nat.lt_succ_of_le (Text.length_cutAt? h)⟩)
    else .error ⟨.unquotedValue, q :: r⟩

/-- An attribute: a name, an equals sign and a value, with white space around the sign. -/
def keyAndValue (tag cs : List Char) : Except Failure ((String × String) × Shorter cs) :=
  match name cs with
  | .error e => .error e
  | .ok (key, ⟨r1, h1⟩) =>
    match expect '=' tag .noEquals (skip r1).1 with
    | .error e => .error e
    | .ok ⟨r2, h2⟩ =>
      match attributeValue cs (skip r2).1 with
      | .error e => .error e
      | .ok (value, ⟨r3, h3⟩) =>
        .ok ((key, value), ⟨r3, by
          have := (skip r1).2; have := (skip r2).2; omega⟩)

/-- The attributes that follow those read, and whether the tag closes its element. -/
def attributes (tag : List Char) (read : List (String × String)) (cs : List Char) :
    Except Failure (List (String × String) × Bool × Shorter cs) :=
  have hskip := (skip cs).2
  match h : (skip cs).1 with
  | [] => .error ⟨.openTag, tag⟩
  | '/' :: '>' :: r =>
    .ok (read, true, ⟨r, by rw [h] at hskip; simp only [List.length_cons] at hskip; omega⟩)
  | '>' :: r =>
    .ok (read, false, ⟨r, by rw [h] at hskip; simp only [List.length_cons] at hskip; omega⟩)
  | c :: r =>
    if (c :: r).length = cs.length then .error ⟨.noSpace, c :: r⟩
    else
      match keyAndValue tag (c :: r) with
      | .error e => .error e
      | .ok ((key, value), ⟨r1, h1⟩) =>
        if read.any (·.1 == key) then .error ⟨.duplicateAttribute key, c :: r⟩
        else
          have h2 : r1.length < cs.length := by rw [h] at hskip; omega
          match attributes tag (read ++ [(key, value)]) r1 with
          | .error e => .error e
          | .ok (all, empty, ⟨r2, h3⟩) => .ok (all, empty, ⟨r2, by omega⟩)
termination_by cs.length

/-! ## Events -/

theorem shorter_of_cutAt? {m : Char} {ms cs before rest : List Char}
    (h : Text.cutAt? (m :: ms) cs = some (before, rest)) : rest.length < cs.length := by
  rw [Text.append_of_cutAt? h]
  simp only [List.length_append, List.length_cons]
  omega

def skipPast (m : Char) (ms : List Char) (fault : Fault) (cs : List Char) :
    Except Failure (Option Event × Shorter cs) :=
  match h : Text.cutAt? (m :: ms) cs with
  | none => .error ⟨fault, cs⟩
  | some (_, rest) => .ok (none, ⟨rest, shorter_of_cutAt? h⟩)

/-- A section of character data, its nine opening characters read already. -/
def characterData (here cs : List Char) : Except Failure (Option Event × Shorter cs) :=
  match h : Text.cutAt? [']', ']', '>'] cs with
  | none => .error ⟨.openCharacterData, here⟩
  | some (s, rest) => .ok (some (.text (String.ofList s)), ⟨rest, shorter_of_cutAt? h⟩)

/-- An end tag, its two opening characters read already. -/
def endTag (tag cs : List Char) : Except Failure (Option Event × Shorter cs) :=
  match name cs with
  | .error e => .error e
  | .ok (n, ⟨r1, h1⟩) =>
    match expect '>' tag .openEndTag (skip r1).1 with
    | .error e => .error e
    | .ok ⟨r2, h2⟩ => .ok (some (.stop n), ⟨r2, by have := (skip r1).2; omega⟩)

/-- A start tag, its opening character read already. -/
def startTag (tag cs : List Char) : Except Failure (Option Event × Shorter cs) :=
  match name cs with
  | .error e => .error e
  | .ok (n, ⟨r1, h1⟩) =>
    match attributes tag [] r1 with
    | .error e => .error e
    | .ok (attrs, empty, ⟨r2, h2⟩) => .ok (some (.start n attrs empty), ⟨r2, by omega⟩)

def content (c : Char) (cs : List Char) : Except Failure (Option Event × Shorter (c :: cs)) :=
  let (more, rest) := run (· != '<') cs
  match resolved rest.1 (c :: more) with
  | .error e => .error e
  | .ok s => .ok (some (.text (String.ofList s)), ⟨rest.1, Nat.lt_succ_of_le rest.2⟩)

/-- The event, if any, of the markup or text in front. -/
def next (c : Char) (cs : List Char) : Except Failure (Option Event × Shorter (c :: cs)) :=
  if c = '<' then
    match cs with
    | '!' :: '-' :: '-' :: r => skipPast '-' ['-', '>'] .openComment (c :: '!' :: '-' :: '-' :: r)
    | '!' :: '[' :: 'C' :: 'D' :: 'A' :: 'T' :: 'A' :: '[' :: r =>
      match characterData (c :: '!' :: '[' :: 'C' :: 'D' :: 'A' :: 'T' :: 'A' :: '[' :: r) r with
      | .error e => .error e
      | .ok (ev, ⟨rest, h⟩) => .ok (ev, ⟨rest, by simp only [List.length_cons]; omega⟩)
    | '?' :: r => skipPast '?' ['>'] .openInstruction (c :: '?' :: r)
    | '/' :: r =>
      match endTag (c :: '/' :: r) r with
      | .error e => .error e
      | .ok (ev, ⟨rest, h⟩) => .ok (ev, ⟨rest, by simp only [List.length_cons]; omega⟩)
    | r =>
      match startTag (c :: r) r with
      | .error e => .error e
      | .ok (ev, ⟨rest, h⟩) => .ok (ev, ⟨rest, Nat.lt_succ_of_lt h⟩)
  else content c cs

/-- The events of a text. -/
def events : List Char → Except Failure (List Located)
  | [] => .ok []
  | c :: cs =>
    match next c cs with
    | .error e => .error e
    | .ok (ev, ⟨rest, _h⟩) =>
      match events rest with
      | .error e => .error e
      | .ok es =>
        .ok (match ev with
          | none => es
          | some ev => ⟨ev, c :: cs⟩ :: es)
termination_by cs => cs.length
decreasing_by exact _h

end SqlTemplate.Template
