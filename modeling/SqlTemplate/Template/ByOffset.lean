import SqlTemplate.Error
import SqlTemplate.Template.Parser
import SqlTemplate.Text.Slice
/-!
Reading templates by byte offset. A place in the source is the number of bytes in front of it, and
what stands there is got at by cutting the source, or a part of it, at offsets that are computed. A
cut within a character or behind the end is an outcome of its own.

The events are those that the texts of `Template.Event` give, and the tree is built by the same
`ofEvents`: it computes no offset, but hands on those of events.
-/

namespace SqlTemplate.Template.ByOffset

open Condition (isLetter)

/-- Why reading stops: a text cannot be cut at an offset, or the template has an error. -/
inductive Stop where
  | badCut (text : List Char) (offset : Nat)
  | failed (e : Error)
  deriving DecidableEq

/-! ## Cuts -/

/-- What may stand in a text from a byte offset on. -/
abbrev After (cs : List Char) (offset : Nat) :=
  { rest : List Char // offset + Text.byteLength rest = Text.byteLength cs }

theorem byteLength_of_splitAt? {cs before rest : List Char} {offset : Nat}
    (h : Text.splitAt? cs offset = some (before, rest)) :
    offset + Text.byteLength rest = Text.byteLength cs := by
  obtain ⟨rfl, rfl⟩ := Text.eq_of_splitAt? h
  rw [Text.byteLength_append]

def sliceFrom (cs : List Char) (offset : Nat) : Except Stop (After cs offset) :=
  match h : Text.splitAt? cs offset with
  | some (_, rest) => .ok ⟨rest, byteLength_of_splitAt? h⟩
  | none => .error (.badCut cs offset)

def sliceTo (cs : List Char) (offset : Nat) : Except Stop (List Char) :=
  match Text.splitAt? cs offset with
  | some (before, _) => .ok before
  | none => .error (.badCut cs offset)

/-- A text is cut anywhere but within a character or behind its end. -/
theorem badCut_iff {cs : List Char} {offset : Nat} :
    (sliceFrom cs offset = .error (.badCut cs offset) ↔
      ¬ String.Pos.Raw.IsValid (String.ofList cs) ⟨offset⟩) ∧
    (sliceTo cs offset = .error (.badCut cs offset) ↔
      ¬ String.Pos.Raw.IsValid (String.ofList cs) ⟨offset⟩) := by
  rw [← Text.isSome_splitAt?_iff, sliceFrom, sliceTo]
  constructor <;> split <;> rename_i h <;> simp [h]

def slice (cs : List Char) (low high : Nat) : Except Stop (List Char) := do
  let before ← sliceTo cs high
  let between ← sliceFrom before low
  return between.1

/-! ## Lines and columns -/

/-- The line and the column of a byte offset, both counted from 1, columns in characters. -/
def lineAndColumn (source : List Char) (offset : Nat) : Except Stop (Nat × Nat) := do
  let before ← sliceTo source (min offset (Text.byteLength source))
  let line := before.count '\n' + 1
  match Text.findLast? '\n' before with
  | none => return (line, before.length + 1)
  | some newline =>
    let last ← sliceFrom before (newline + 1)
    return (line, last.1.length + 1)

def fail {α : Type} (source : List Char) (offset : Nat) (fault : Fault) : Except Stop α := do
  let (line, column) ← lineAndColumn source offset
  throw (.failed (.malformed line column fault))

/-! ## Character references -/

/-- The text with its references resolved: `out` is what those before `rest` gave, and `rest` starts
`consumed` bytes behind the offset `base`. -/
def resolvedFrom (source : List Char) (base : Nat) (out : List Char) (consumed : Nat)
    (rest : List Char) : Except Stop (List Char) :=
  match Text.find? ['&'] rest with
  | none => return out ++ rest
  | some amp => do
    let plain ← sliceTo rest amp
    let place := base + consumed + amp
    let after ← sliceFrom rest (amp + 1)
    match (Text.find? [';'] after.1).filter (· ≤ 10) with
    | none => fail source place .openReference
    | some semi =>
      let entity ← sliceTo after.1 semi
      match entity? entity with
      | none => fail source place (.unknownReference (String.ofList entity))
      | some c =>
        let step := amp + 1 + semi + 1
        let left ← sliceFrom rest step
        have := left.2
        resolvedFrom source base (out ++ plain ++ [c]) (consumed + step) left.1
termination_by Text.byteLength rest

def resolved (source : List Char) (base : Nat) (raw : List Char) : Except Stop (List Char) :=
  if raw.contains '&' then resolvedFrom source base [] 0 raw else .ok raw

/-! ## Tags -/

abbrev Onward (pos : Nat) := { p : Nat // pos ≤ p }

abbrev Further (pos : Nat) := { p : Nat // pos < p }

def isTagByte (b : UInt8) : Bool :=
  (0x61 ≤ b && b ≤ 0x7A) || (0x41 ≤ b && b ≤ 0x5A) || (0x30 ≤ b && b ≤ 0x39) ||
    b == 0x5F || b == 0x2D || b == 0x2E || b == 0x3A

/-- The name at an offset. -/
def name (source : List Char) (pos : Nat) : Except Stop (String × Onward pos) := do
  let rest ← sliceFrom source pos
  if rest.1.head?.any fun c => isLetter c || c = '_' then
    let length := ((Text.encode rest.1).takeWhile isTagByte).length
    let word ← sliceTo rest.1 length
    return (String.ofList word, ⟨pos + length, Nat.le_add_right _ _⟩)
  else fail source pos .noName

/-- The offset behind white space. -/
def skip (source : List Char) (pos : Nat) : Except Stop (Onward pos) := do
  let rest ← sliceFrom source pos
  let skipped := Text.byteLength rest.1 - Text.byteLength (Text.trimStart rest.1)
  return ⟨pos + skipped, Nat.le_add_right _ _⟩

/-- The offset behind `token`; at the end of the source the tag that starts at `start` is
unfinished. -/
def expect (token source : List Char) (start : Nat) (fault : Fault) (pos : Nat) :
    Except Stop (Onward pos) := do
  let rest ← sliceFrom source pos
  if Text.startsWith token rest.1 then
    return ⟨pos + Text.byteLength token, Nat.le_add_right _ _⟩
  else if Text.byteLength source ≤ pos then fail source start .openTag
  else fail source pos fault

/-- The value of an attribute, quotes included; the name of the attribute is at `key`. -/
def attributeValue (source : List Char) (key pos : Nat) : Except Stop (String × Onward pos) := do
  let rest ← sliceFrom source pos
  match rest.1.head?.filter fun q => q = '\x27' || q = '\x22' with
  | none => fail source pos .unquotedValue
  | some q =>
    let start := pos + 1
    let inside ← sliceFrom source start
    match Text.find? [q] inside.1 with
    | none => fail source key .openValue
    | some length =>
      let raw ← slice source start (start + length)
      if raw.contains '<' then fail source start .bracketInValue
      else
        let value ← resolved source start raw
        return (String.ofList value, ⟨start + length + 1, by omega⟩)

/-- An attribute: a name, an equals sign and a value, with white space around the sign. -/
def keyAndValue (source : List Char) (start pos : Nat) :
    Except Stop ((String × String) × Onward pos) := do
  let (key, ⟨p₁, h₁⟩) ← name source pos
  let ⟨p₂, h₂⟩ ← skip source p₁
  let ⟨p₃, h₃⟩ ← expect ['='] source start .noEquals p₂
  let ⟨p₄, h₄⟩ ← skip source p₃
  let (value, ⟨p₅, h₅⟩) ← attributeValue source pos p₄
  return ((key, value), ⟨p₅, by omega⟩)

/-- The attributes that follow those read, and whether the tag closes its element. -/
def attributes (source : List Char) (start : Nat) (read : List (String × String)) (pos : Nat) :
    Except Stop (List (String × String) × Bool × Onward pos) := do
  let ⟨here, hhere⟩ ← skip source pos
  let ⟨rest, hrest⟩ ← sliceFrom source here
  if Text.startsWith ['/', '>'] rest then return (read, true, ⟨here + 2, by omega⟩)
  else if Text.startsWith ['>'] rest then return (read, false, ⟨here + 1, by omega⟩)
  else if hnil : rest = [] then fail source start .openTag
  else if hspace : here = pos then fail source here .noSpace
  else
    have hpos := Text.byteLength_pos hnil
    let ((key, value), ⟨p₁, h₁⟩) ← keyAndValue source start here
    if read.any (·.1 == key) then fail source here (.duplicateAttribute key)
    else
      let (all, empty, ⟨p₂, h₂⟩) ← attributes source start (read ++ [(key, value)]) p₁
      return (all, empty, ⟨p₂, by omega⟩)
termination_by Text.byteLength source - pos

/-! ## Events -/

/-- An end tag; its name is at `pos`, its first character at `start`. -/
def endTag (source : List Char) (start pos : Nat) :
    Except Stop (Option Event × Onward pos) := do
  let (name, ⟨p₁, h₁⟩) ← name source pos
  let ⟨p₂, h₂⟩ ← skip source p₁
  let ⟨p₃, h₃⟩ ← expect ['>'] source start .openEndTag p₂
  return (some (.stop name), ⟨p₃, by omega⟩)

/-- A start tag; its name is at `pos`, its first character at `start`. -/
def startTag (source : List Char) (start pos : Nat) :
    Except Stop (Option Event × Onward pos) := do
  let (name, ⟨p₁, h₁⟩) ← name source pos
  let (attributes, empty, ⟨p₂, h₂⟩) ← attributes source start [] p₁
  return (some (.start name attributes empty), ⟨p₂, by omega⟩)

/-- Goes past the first occurrence of an end mark in the text at `pos`. -/
def skipPast (m : Char) (ms : List Char) (fault : Fault) (source rest : List Char) (pos : Nat) :
    Except Stop (Option Event × Further pos) :=
  match Text.find? (m :: ms) rest with
  | none => fail source pos fault
  | some stop =>
    have hmark := Text.byteLength_pos (List.cons_ne_nil m ms)
    return (none, ⟨pos + (stop + Text.byteLength (m :: ms)), by omega⟩)

/-- A section of character data at `pos`; `body` follows its nine opening characters. -/
def characterData (source body : List Char) (pos : Nat) :
    Except Stop (Option Event × Further pos) :=
  match Text.find? [']', ']', '>'] body with
  | none => fail source pos .openCharacterData
  | some stop => do
    let s ← sliceTo body stop
    return (some (.text (String.ofList s)), ⟨pos + (9 + stop + 3), by omega⟩)

theorem content_pos {rest : List Char} (hnil : rest ≠ [])
    (htag : ¬ Text.startsWith ['<'] rest = true) :
    0 < (Text.find? ['<'] rest).getD (Text.byteLength rest) := by
  cases hcut : Text.cutAt? ['<'] rest with
  | none =>
    rw [Text.find?_eq_none.mpr hcut, Option.getD_none]
    exact Text.byteLength_pos hnil
  | some p =>
    rw [Text.find?_eq_some hcut, Option.getD_some]
    refine Text.byteLength_pos fun hbefore => htag ?_
    rw [Text.startsWith, Text.append_of_cutAt? hcut, hbefore]
    rfl

/-- Text at `pos`, up to the next tag. -/
def content (source rest : List Char) (pos : Nat) (hnil : rest ≠ [])
    (htag : ¬ Text.startsWith ['<'] rest = true) : Except Stop (Option Event × Further pos) := do
  let length := (Text.find? ['<'] rest).getD (Text.byteLength rest)
  let raw ← sliceTo rest length
  let s ← resolved source pos raw
  return (some (.text (String.ofList s)),
    ⟨pos + length, Nat.lt_add_of_pos_right (content_pos hnil htag)⟩)

theorem ne_nil_of_lt {source rest : List Char} {pos : Nat} (hpos : pos < Text.byteLength source)
    (hrest : pos + Text.byteLength rest = Text.byteLength source) : rest ≠ [] := by
  rintro rfl
  rw [Text.byteLength_nil] at hrest
  omega

/-- The event, if any, of the markup or text at an offset in the source. -/
def next (source : List Char) (pos : Nat) (hpos : pos < Text.byteLength source) :
    Except Stop (Option Event × Further pos) := do
  let ⟨rest, hrest⟩ ← sliceFrom source pos
  if Text.startsWith ['<', '!', '-', '-'] rest then
    skipPast '-' ['-', '>'] .openComment source rest pos
  else
    match Text.after? ['<', '!', '[', 'C', 'D', 'A', 'T', 'A', '['] rest with
    | some body => characterData source body pos
    | none =>
      if Text.startsWith ['<', '?'] rest then
        skipPast '?' ['>'] .openInstruction source rest pos
      else if Text.startsWith ['<', '/'] rest then
        let (event?, ⟨p, hp⟩) ← endTag source pos (pos + 2)
        return (event?, ⟨p, by omega⟩)
      else if htag : Text.startsWith ['<'] rest then
        let (event?, ⟨p, hp⟩) ← startTag source pos (pos + 1)
        return (event?, ⟨p, by omega⟩)
      else content source rest pos (ne_nil_of_lt hpos hrest) htag

structure Placed where
  event : Event
  offset : Nat

/-- The events from an offset on. -/
def events (source : List Char) (pos : Nat) : Except Stop (List Placed) :=
  if hpos : pos < Text.byteLength source then do
    let (event?, ⟨p, _hp⟩) ← next source pos hpos
    let later ← events source p
    return match event? with
      | none => later
      | some event => ⟨event, pos⟩ :: later
  else return []
termination_by Text.byteLength source - pos

/-! ## Nodes -/

def Placed.located (source : List Char) (e : Placed) : Except Stop Located := do
  let here ← sliceFrom source e.offset
  return ⟨e.event, here.1⟩

/-- The nodes of events. What follows the place of a failure gives its offset. -/
def nodes (source : List Char) (es : List Placed) : Except Stop (List Node) := do
  match ofEvents (← es.mapM (Placed.located source)) with
  | .ok ns => return ns
  | .error e => fail source (Text.byteLength source - Text.byteLength e.here) e.fault

def parse (source : String) : Except Stop (List Node) := do
  let es ← events source.toList 0
  nodes source.toList es

end SqlTemplate.Template.ByOffset
