import SqlTemplate.Condition.Token
/-!
The grammar of conditions, apart from how they are read. A text splits into lexemes with white space
between them (`Splits`), and lexemes write a condition (`Derives`):

    disjunction := conjunction ("or" conjunction)*
    conjunction := comparison ("and" comparison)*
    comparison  := operand (relop operand)?
    operand     := "not" "(" disjunction ")" | "(" disjunction ")" | variable | number | text

A repetition binds to the left, so its rule here has the repetition first.
-/

namespace SqlTemplate.Condition

open Text (LongestRun)

/-- The text `w` in front of `rest` is the lexeme `t`: runs go as far as they can, and so do
operators. -/
inductive IsLexeme : List Char → Token → List Char → Prop
  | opening {rest : List Char} : IsLexeme ['('] .opening rest
  | closing {rest : List Char} : IsLexeme [')'] .closing rest
  | op {o : RelOp} {rest : List Char}
      (longest : ∀ p : RelOp, p.symbol.toList <+: o.symbol.toList ++ rest →
        p.symbol.toList.length ≤ o.symbol.toList.length) :
      IsLexeme o.symbol.toList (.op o) rest
  | text {q : Char} {s rest : List Char} (hq : q = '\x27' ∨ q = '\x22') (hs : q ∉ s) :
      IsLexeme (q :: (s ++ [q])) (.text (String.ofList s)) rest
  | var {name rest : List Char} (hne : name ≠ []) (hrun : LongestRun isNameChar name rest) :
      IsLexeme ('$' :: name) (.var (String.ofList name)) rest
  | number {c : Char} {more rest : List Char} {x : Binary64}
      (hc : startsNumber c = true) (hrun : LongestRun isNumberChar more rest)
      (hx : Numeral.float? (c :: more) = some x) : IsLexeme (c :: more) (.number x) rest
  | conjunction {rest : List Char} (hrun : LongestRun isNameChar ['a', 'n', 'd'] rest) :
      IsLexeme ['a', 'n', 'd'] .conjunction rest
  | disjunction {rest : List Char} (hrun : LongestRun isNameChar ['o', 'r'] rest) :
      IsLexeme ['o', 'r'] .disjunction rest
  | negation {rest : List Char} (hrun : LongestRun isNameChar ['n', 'o', 't'] rest) :
      IsLexeme ['n', 'o', 't'] .negation rest

/-- The text is made of the lexemes, in their order, with white space anywhere between them. -/
inductive Splits : List Char → List Token → Prop
  | done : Splits [] []
  | space {c : Char} {cs : List Char} {ts : List Token} (hc : isSpace c = true)
      (h : Splits cs ts) : Splits (c :: cs) ts
  | lexeme {w rest : List Char} {t : Token} {ts : List Token} (hw : IsLexeme w t rest)
      (h : Splits rest ts) : Splits (w ++ rest) (t :: ts)

/-- The levels of the grammar, from the loosest on. -/
inductive Level where
  | disjunction
  | conjunction
  | comparison
  | operand

/-- The lexemes write the condition at a level of the grammar. -/
inductive Derives : Level → List Token → Condition → Prop
  | disjunct {ts : List Token} {c : Condition} (h : Derives .conjunction ts c) :
      Derives .disjunction ts c
  | either {ls rs : List Token} {l r : Condition} (hl : Derives .disjunction ls l)
      (hr : Derives .conjunction rs r) :
      Derives .disjunction (ls ++ .disjunction :: rs) (.either l r)
  | conjunct {ts : List Token} {c : Condition} (h : Derives .comparison ts c) :
      Derives .conjunction ts c
  | both {ls rs : List Token} {l r : Condition} (hl : Derives .conjunction ls l)
      (hr : Derives .comparison rs r) :
      Derives .conjunction (ls ++ .conjunction :: rs) (.both l r)
  | alone {ts : List Token} {c : Condition} (h : Derives .operand ts c) : Derives .comparison ts c
  | relates {ls rs : List Token} {l r : Condition} (o : RelOp) (hl : Derives .operand ls l)
      (hr : Derives .operand rs r) : Derives .comparison (ls ++ .op o :: rs) (.relates o l r)
  | neg {ts : List Token} {c : Condition} (h : Derives .disjunction ts c) :
      Derives .operand (.negation :: .opening :: (ts ++ [.closing])) (.neg c)
  | parenthesized {ts : List Token} {c : Condition} (h : Derives .disjunction ts c) :
      Derives .operand (.opening :: (ts ++ [.closing])) c
  | var (name : String) : Derives .operand [.var name] (.var name)
  | number (x : Binary64) : Derives .operand [.number x] (.number x)
  | text (s : String) : Derives .operand [.text s] (.text s)

/-- The text writes the condition. -/
def Writes (source : String) (c : Condition) : Prop :=
  ∃ ts, Splits source.toList ts ∧ Derives .disjunction ts c

end SqlTemplate.Condition
