import SqlTemplate.Condition.Token
import SqlTemplate.Text.Blank
/-!
Placeholders in SQL text. A text is cut into segments: quoted texts, comments, runs of colons,
placeholders and single characters. Only the segments that are placeholders name parameters, so
that a name in a literal, in a comment or after a cast operator does not.
-/

namespace SqlTemplate

/-- A piece of SQL text, with the characters that make it up. -/
inductive Segment where
  | quoted (cs : List Char)
  | lineComment (cs : List Char)
  | blockComment (cs : List Char)
  | colons (cs : List Char)
  | placeholder (name : List Char)
  | other (c : Char)
  deriving DecidableEq, Repr

namespace Segment

def text : Segment → List Char
  | .quoted cs | .lineComment cs | .blockComment cs | .colons cs => cs
  | .placeholder name => ':' :: name
  | .other c => [c]

def name? : Segment → Option (List Char)
  | .placeholder name => some name
  | _ => none

end Segment

namespace Placeholder

open Condition (Remaining run)

def isNameStart (c : Char) : Bool := Condition.isNameChar c

def isNameRest (c : Char) : Bool := isNameStart c || c == '$' || c == '#'

def isName : List Char → Bool
  | [] => false
  | c :: cs => isNameStart c && cs.all isNameRest

theorem visible_of_isName {cs : List Char} (h : isName cs = true) :
    ∀ c ∈ cs, 0x21 ≤ c.toNat ∧ c.toNat ≤ 0x7E := by
  cases cs with
  | nil => cases h
  | cons c cs =>
    rw [isName, Bool.and_eq_true, List.all_eq_true] at h
    intro d hd
    rcases List.mem_cons.mp hd with rfl | hd
    · exact Condition.visible_of_isNameChar h.1
    · have hrest := h.2 d hd
      simp only [isNameRest, isNameStart, Bool.or_eq_true, beq_iff_eq] at hrest
      rcases hrest with (hrest | rfl) | rfl
      · exact Condition.visible_of_isNameChar hrest
      · decide
      · decide

def numbered (name : String) (i : Nat) : String := name ++ integerText i

theorem numbered_inj {name : String} {i j : Nat} : numbered name i = numbered name j ↔ i = j := by
  refine ⟨fun h => ?_, fun h => h ▸ rfl⟩
  exact integerText_natCast_inj ((String.append_right_inj name).mp h)

/-- The segment of a quoted text: up to the next quote of the same kind, or to the end. -/
def quotedFrom (quote : Char) (cs : List Char) : Segment × Remaining cs :=
  match run (· != quote) cs with
  | (before, ⟨[], _⟩) => (.quoted (quote :: before), ⟨[], Nat.zero_le _⟩)
  | (before, ⟨c :: rest, h⟩) =>
    (.quoted (quote :: before ++ [c]), ⟨rest, by simp only [List.length_cons] at h; omega⟩)

/-- The segment that starts with a hyphen: a comment up to the end of the line, if a second hyphen
follows. -/
def hyphenFrom (cs : List Char) : Segment × Remaining cs :=
  match cs with
  | '-' :: r =>
    let (before, rest) := run (· != '\n') r
    (.lineComment ('-' :: '-' :: before), ⟨rest.1, Nat.le_succ_of_le rest.2⟩)
  | cs => (.other '-', .all cs)

/-- The segment that starts with a slash: a comment up to the first end mark or to the end, if an
asterisk follows. -/
def slashFrom (cs : List Char) : Segment × Remaining cs :=
  match cs with
  | '*' :: r =>
    match h : Text.cutAt? ['*', '/'] r with
    | some (before, rest) =>
      (.blockComment ('/' :: '*' :: before ++ ['*', '/']),
        ⟨rest, Nat.le_succ_of_le (Text.length_cutAt? h)⟩)
    | none => (.blockComment ('/' :: '*' :: r), ⟨[], by simp⟩)
  | cs => (.other '/', .all cs)

/-- The segment that starts with a colon: all colons if a second one follows, the longest name if
a name follows, else the colon alone. -/
def colonFrom (cs : List Char) : Segment × Remaining cs :=
  match cs with
  | [] => (.other ':', .all [])
  | c :: r =>
    if c = ':' then
      let (more, rest) := run (· == ':') r
      (.colons (':' :: ':' :: more), ⟨rest.1, Nat.le_succ_of_le rest.2⟩)
    else if isNameStart c then
      let (more, rest) := run isNameRest r
      (.placeholder (c :: more), ⟨rest.1, Nat.le_succ_of_le rest.2⟩)
    else (.other ':', .all (c :: r))

/-- The segment whose first character is `c`, and what follows it in `cs`. -/
def segment (c : Char) (cs : List Char) : Segment × Remaining cs :=
  if c = '\x27' || c = '\x22' then quotedFrom c cs
  else if c = '-' then hyphenFrom cs
  else if c = '/' then slashFrom cs
  else if c = ':' then colonFrom cs
  else (.other c, .all cs)

/-- The segments of a text from left to right. -/
def segments : List Char → List Segment
  | [] => []
  | c :: cs =>
    have _h := (segment c cs).2.2
    (segment c cs).1 :: segments (segment c cs).2.1
termination_by cs => cs.length
decreasing_by simp only [List.length_cons]; omega

/-- The names of the placeholders of a text, in order and with repetitions. -/
def scan (cs : List Char) : List String :=
  ((segments cs).filterMap Segment.name?).map String.ofList

/-- A list of names with one more, in ascending order and without repetition. -/
def insertName (name : String) : List String → List String
  | [] => [name]
  | n :: ns =>
    match compare name n with
    | .lt => name :: n :: ns
    | .eq => n :: ns
    | .gt => n :: insertName name ns

def distinct (names : List String) : List String := names.foldl (fun ns n => insertName n ns) []

def used (cs : List Char) : List String := distinct (scan cs)

def Ascending (names : List String) : Prop := names.Pairwise fun a b => compare a b = .lt

theorem mem_insertName {name m : String} {ns : List String} :
    m ∈ insertName name ns ↔ m = name ∨ m ∈ ns := by
  induction ns with
  | nil => simp [insertName]
  | cons n ns ih =>
    simp only [insertName]
    split
    · rw [List.mem_cons]
    · next heq =>
      rw [Std.LawfulEqOrd.eq_of_compare heq]
      simp
    · rw [List.mem_cons, ih, List.mem_cons]
      exact or_left_comm

theorem ascending_insertName (name : String) {ns : List String} (h : Ascending ns) :
    Ascending (insertName name ns) := by
  induction ns with
  | nil => exact List.pairwise_singleton ..
  | cons n ns ih =>
    obtain ⟨hn, hns⟩ := List.pairwise_cons.mp h
    simp only [insertName]
    split
    · next hlt =>
      refine List.pairwise_cons.mpr ⟨fun m hm => ?_, h⟩
      rcases List.mem_cons.mp hm with rfl | hm
      · exact hlt
      · exact Std.TransCmp.lt_trans hlt (hn m hm)
    · exact h
    · next hgt =>
      refine List.pairwise_cons.mpr ⟨fun m hm => ?_, ih hns⟩
      rcases mem_insertName.mp hm with rfl | hm
      · exact Std.OrientedCmp.lt_of_gt hgt
      · exact hn m hm

theorem mem_foldl_insertName {names ns : List String} {m : String} :
    m ∈ names.foldl (fun ns n => insertName n ns) ns ↔ m ∈ names ∨ m ∈ ns := by
  induction names generalizing ns with
  | nil => simp
  | cons n names ih =>
    rw [List.foldl_cons, ih, mem_insertName, List.mem_cons, or_assoc]
    exact or_left_comm

theorem ascending_foldl_insertName (names : List String) {ns : List String} (h : Ascending ns) :
    Ascending (names.foldl (fun ns n => insertName n ns) ns) := by
  induction names generalizing ns with
  | nil => exact h
  | cons n names ih => exact ih (ascending_insertName n h)

theorem mem_used {cs : List Char} {name : String} : name ∈ used cs ↔ name ∈ scan cs := by
  simp [used, distinct, mem_foldl_insertName]

theorem ascending_used (cs : List Char) : Ascending (used cs) :=
  ascending_foldl_insertName (scan cs) List.Pairwise.nil

end Placeholder

end SqlTemplate
