import Mathlib.Data.List.Infix
import SqlTemplate.Proofs.Sql.Adapter
import SqlTemplate.Sql.Connection
/-!
The kinds of faults that rejected texts raise.

The kind of a fault is read off its words, and the words of a syntax error repeat the text of the
statement. What is proved:
  1. `mentions_near_iff`: a phrase for something missing stands in the words of a syntax error exactly
     if it stands in the text. What is put around the text can neither hold such a phrase nor make
     one with the ends of the text.
  2. `execute_rejected`: so, whatever the library is that rejects a text, a syntax error is an invalid
     syntax for all texts but those that mention something missing, and an incomplete text is one
     always.
  3. `execute_misclassified`: a literal is enough to make a syntax error one about a missing table.
-/

namespace SqlTemplate.Sql

open Engine (FaultKind)

/-! ## Phrases -/

theorem mentions_iff {part words : String} :
    mentions part words = true ↔ part.toList <:+: words.toList := by
  unfold mentions
  rw [Option.isSome_iff_exists]
  constructor
  · rintro ⟨⟨before, rest⟩, h⟩
    exact ⟨before, rest, (Text.append_of_cutAt? h).symm⟩
  · rintro ⟨before, rest, h⟩
    obtain ⟨b, r, hcut, _⟩ := Text.cutAt?_of_mark h.symm
    exact ⟨(b, r), hcut⟩

/-- No beginning of a phrase ends a text that ends with `u`, and no end of it begins a text that
begins with `v`. -/
def Apart (p u v : List Char) : Prop :=
  (∀ x ∈ p.inits, x ≠ [] → ¬ x <:+ u ∧ ¬ u <:+ x) ∧ ∀ y ∈ p.tails, y ≠ [] → ¬ y <+: v ∧ ¬ v <+: y

instance (p u v : List Char) : Decidable (Apart p u v) := inferInstanceAs (Decidable (_ ∧ _))

/-- A phrase between two texts from whose ends it is apart stands in one of them or in what is
between them. -/
theorem infix_between_iff {p a s b u v : List Char} (hu : u <:+ a) (hv : v <+: b)
    (hapart : Apart p u v) : p <:+: a ++ s ++ b ↔ p <:+: a ∨ p <:+: s ∨ p <:+: b := by
  have hfront {x y : List Char} (hp : p = x ++ y) (hx : x ≠ []) (h : x <:+ a) : False := by
    obtain ⟨h₁, h₂⟩ := hapart.1 x ((List.mem_inits ..).mpr ⟨y, hp.symm⟩) hx
    exact (List.suffix_or_suffix_of_suffix h hu).elim h₁ h₂
  have hback {x y : List Char} (hp : p = x ++ y) (hy : y ≠ []) (h : y <+: b) : False := by
    obtain ⟨h₁, h₂⟩ := hapart.2 y ((List.mem_tails ..).mpr ⟨x, hp.symm⟩) hy
    exact (List.prefix_or_prefix_of_prefix h hv).elim h₁ h₂
  constructor
  · intro h
    rcases List.infix_append_iff_ne_nil.mp h with h | h | ⟨x, y, _, hy, hp, _, hprefix⟩
    · rcases List.infix_append_iff_ne_nil.mp h with h | h | ⟨x, y, hx, _, hp, hsuffix, _⟩
      · exact .inl h
      · exact .inr (.inl h)
      · exact (hfront hp hx hsuffix).elim
    · exact .inr (.inr h)
    · exact (hback hp hy hprefix).elim
  · rintro (h | h | h)
    · exact (h.trans (List.prefix_append ..).isInfix).trans (List.prefix_append ..).isInfix
    · exact (h.trans (List.suffix_append ..).isInfix).trans (List.prefix_append ..).isInfix
    · exact h.trans (List.suffix_append ..).isInfix

/-- The phrases are apart from the quotes around the word of a syntax error and from what stands
around the text. -/
theorem missingPhrases_apart : ∀ part ∈ missingPhrases,
    Apart part.toList ['\x22'] ['\x22'] ∧ Apart part.toList ['n', ' '] [' ', 'a'] := by
  decide +kernel

/-- Every missing phrase has an h, which no fixed part of the words of a syntax error has. -/
theorem not_infix_of_not_mem {part : String} (hpart : part ∈ missingPhrases) {cs : List Char}
    (hcs : 'h' ∉ cs) : ¬ part.toList <:+: cs := by
  have hmem : 'h' ∈ part.toList := by
    revert part
    decide +kernel
  exact fun h => hcs (h.subset hmem)

theorem not_mem_offset (place : Nat) : 'h' ∉ " at offset ".toList ++ (toString place).toList := by
  intro h
  rcases List.mem_append.mp h with h | h
  · revert h
    decide +kernel
  · rw [Nat.toString_eq_repr, Nat.repr, String.toList_ofList] at h
    have hdigit := Numeral.isDigit_of_mem_toDigits h
    revert hdigit
    decide

/-- The words of a syntax error: the word that cannot stand where it does, and the whole text. -/
def nearWords (word sql : String) (place : Nat) : String :=
  "near \"" ++ word ++ "\": syntax error" ++ " in " ++ sql ++ " at offset " ++ toString place

theorem toList_near (word sql : String) (place : Nat) :
    (nearWords word sql place).toList =
      "near \"".toList ++ word.toList ++ "\": syntax error in ".toList ++ sql.toList ++
        (" at offset ".toList ++ (toString place).toList) := by
  simp [nearWords]

theorem nearWords_ne {word sql : String} (place : Nat) :
    nearWords word sql place ≠ "incomplete input" := by
  intro h
  have hfirst := congrArg (fun words => words.toList.head?) h
  simp only [toList_near, List.append_assoc] at hfirst
  cases hfirst

/-- A phrase for something missing stands in the words of a syntax error exactly if it stands in the
text, of which the word is a part. -/
theorem mentions_near_iff {part word sql : String} (place : Nat) (hpart : part ∈ missingPhrases)
    (hword : word.toList <:+: sql.toList) :
    mentions part (nearWords word sql place) = mentions part sql := by
  obtain ⟨hquotes, hends⟩ := missingPhrases_apart part hpart
  have hnear := not_infix_of_not_mem hpart (by decide +kernel : 'h' ∉ "near \"".toList)
  have herror := not_infix_of_not_mem hpart (by decide +kernel : 'h' ∉ "\": syntax error in ".toList)
  have hoffset := not_infix_of_not_mem hpart (not_mem_offset place)
  have hfront : part.toList <:+: "near \"".toList ++ word.toList ++ "\": syntax error in ".toList ↔
      part.toList <:+: word.toList := by
    rw [infix_between_iff (by decide +kernel) (by decide +kernel) hquotes]
    simp only [hnear, herror, false_or, or_false]
  have hsuffix : ['n', ' '] <:+
      "near \"".toList ++ word.toList ++ "\": syntax error in ".toList :=
    (by decide +kernel : ['n', ' '] <:+ "\": syntax error in ".toList).trans (List.suffix_append ..)
  have hprefix : [' ', 'a'] <+: " at offset ".toList ++ (toString place).toList :=
    (by decide +kernel : [' ', 'a'] <+: " at offset ".toList).trans (List.prefix_append ..)
  have hwhole := infix_between_iff (s := sql.toList) hsuffix hprefix hends
  rw [hfront] at hwhole
  rw [Bool.eq_iff_iff, mentions_iff, mentions_iff]
  rw [toList_near, hwhole]
  constructor
  · rintro (h | h | h)
    · exact h.trans hword
    · exact h
    · exact absurd h hoffset
  · exact fun h => .inr (.inl h)

/-! ## Kinds -/

/-- Why a library rejects a text for its syntax: a word of it cannot stand where it does, or the text
ends too early. -/
inductive Rejection (sql : String) : Failure → Prop
  | near (word : String) (place : Nat) (hword : word.toList <:+: sql.toList) :
    Rejection sql ⟨none, nearWords word sql place, false⟩
  | incomplete : Rejection sql ⟨some 1, "incomplete input", false⟩

def Mentions (sql : String) : Prop :=
  ∃ part ∈ ["no such table", "no such column", "no such function"], part.toList <:+: sql.toList

theorem mentionsMissing_iff {sql : String} : mentionsMissing sql = true ↔ Mentions sql := by
  simp only [mentionsMissing, missingPhrases, Mentions, List.any_eq_true, mentions_iff]

theorem kind_near {word sql : String} (place : Nat) (hword : word.toList <:+: sql.toList) :
    Failure.kind ⟨none, nearWords word sql place, false⟩ =
      if mentionsMissing sql then .missingObject else .invalidSyntax := by
  have hmissing : mentionsMissing (nearWords word sql place) = mentionsMissing sql :=
    Bool.eq_iff_iff.mpr (by
      simp only [mentionsMissing, List.any_eq_true]
      exact exists_congr fun part => and_congr_right fun hpart => by
        rw [mentions_near_iff place hpart hword])
  have hsyntax : mentions "syntax error" (nearWords word sql place) = true := by
    have herror : "syntax error".toList <:+: "\": syntax error in ".toList := ⟨"\": ".toList, _, rfl⟩
    rw [mentions_iff, toList_near]
    exact ((herror.trans (List.suffix_append ..).isInfix).trans
      (List.prefix_append ..).isInfix).trans (List.prefix_append ..).isInfix
  simp only [Failure.kind, hmissing, hsyntax, reduceCtorEq, decide_false, Bool.or_self,
    Bool.false_eq_true, if_false, Bool.true_or, if_true]

theorem kind_incomplete : Failure.kind ⟨some 1, "incomplete input", false⟩ = .invalidSyntax := by
  decide +kernel

namespace Library

variable {σ π : Type} {lib : Library σ π} {st : Engine.Statement} {s t : σ} {f : Failure}

/-- A text that a library rejects for its syntax raises a fault with the library's code and words. It
is one of invalid syntax, unless a word cannot stand where it does and the text mentions something
missing: then the fault is about that. -/
theorem execute_rejected (hassoc : ∀ b ∈ st.binds, ¬ IsAssoc b)
    (hcompile : lib.compile st.sql s = (.error f, t)) (hf : Rejection st.sql f) :
    ∃ kind, lib.execute st s = (.error ⟨kind, f.code, f.words⟩, t) ∧
      (kind = .invalidSyntax ↔ f.words = "incomplete input" ∨ ¬ Mentions st.sql) ∧
      (kind = .missingObject ↔ f.words ≠ "incomplete input" ∧ Mentions st.sql) := by
  refine ⟨f.kind, execute_of_compile_error (firstAssoc?_eq_none hassoc) hcompile, ?_⟩
  cases hf with
  | near word place hword =>
    have hwords : nearWords word st.sql place ≠ "incomplete input" := nearWords_ne place
    rw [kind_near place hword, ← mentionsMissing_iff]
    cases mentionsMissing st.sql <;> simp [hwords]
  | incomplete =>
    rw [kind_incomplete]
    simp

end Library

def problem? {α : Type} : Except Problem α → Option Problem
  | .error p => some p
  | .ok _ => none

namespace Connection

theorem compile_of_problem {c : Connection} {sql : String} {q : Problem}
    (h : problem? (c.prepare sql) = some q) : library.compile sql c = (.error (q.failure sql), c) := by
  have hprepare : c.prepare sql = .error q := by
    cases hp : c.prepare sql with
    | error r =>
      rw [hp] at h
      exact congrArg _ (Option.some.inj h)
    | ok p =>
      rw [hp] at h
      cases h
  have hcompile : compile sql c = (.error (q.failure sql), c) := by simp only [compile, hprepare]
  exact hcompile

/-- What only begins like a phrase for something missing is no such phrase, and an incomplete text may
hold one. -/
theorem execute_rejected_comment :
    let c := ofDatabase .standard []
    let st : Engine.Statement := ⟨"delete t -- no such row", []⟩
    let cut : Engine.Statement := ⟨"select 'no such table' from", []⟩
    (∃ f, library.compile st.sql c = (.error f, c) ∧ Rejection st.sql f ∧
      library.execute st c = (.error ⟨.invalidSyntax, f.code, f.words⟩, c)) ∧
    ∃ f, library.compile cut.sql c = (.error f, c) ∧ Rejection cut.sql f ∧
      library.execute cut c = (.error ⟨.invalidSyntax, f.code, f.words⟩, c) := by
  intro c st cut
  have hcompile : library.compile st.sql c = (.error ((Problem.near "t" 7).failure st.sql), c) :=
    compile_of_problem (by decide +kernel)
  have hopen : library.compile cut.sql c = (.error (Problem.incomplete.failure cut.sql), c) :=
    compile_of_problem (by decide +kernel)
  have hnear : Rejection st.sql ((Problem.near "t" 7).failure st.sql) :=
    .near "t" 7 (by decide +kernel)
  have hincomplete : Rejection cut.sql (Problem.incomplete.failure cut.sql) := .incomplete
  have hwords : ¬ Mentions st.sql := by
    rw [← mentionsMissing_iff]
    decide +kernel
  have hnone : ∀ b ∈ ([] : List Engine.Bind), ¬ IsAssoc b := fun b hb => absurd hb List.not_mem_nil
  obtain ⟨kind, hexecute, hkind, -⟩ := Library.execute_rejected hnone hcompile hnear
  obtain ⟨kind', hexecute', hkind', -⟩ := Library.execute_rejected hnone hopen hincomplete
  rw [hkind.mpr (.inr hwords)] at hexecute
  rw [hkind'.mpr (.inl rfl)] at hexecute'
  exact ⟨⟨_, hcompile, hnear, hexecute⟩, _, hopen, hincomplete, hexecute'⟩

/-- A literal is enough to make a syntax error one about a missing table. -/
theorem execute_misclassified :
    let c := ofDatabase .standard []
    let st : Engine.Statement := ⟨"selec 'no such table'", []⟩
    (∃ f, library.compile st.sql c = (.error f, c) ∧ Rejection st.sql f) ∧
      ∃ f, engine.execute st c = (.error f, c) ∧ f.kind = .missingObject := by
  intro c st
  have hcompile : library.compile st.sql c = (.error ((Problem.near "selec" 0).failure st.sql), c) :=
    compile_of_problem (by decide +kernel)
  exact ⟨⟨_, hcompile, .near "selec" 0 (by decide +kernel)⟩, _,
    Library.execute_of_compile_error rfl hcompile, by decide +kernel⟩

end Connection

end SqlTemplate.Sql
