import SqlTemplate.Proofs.Condition.Relation
import SqlTemplate.Proofs.Condition.Resolution
import SqlTemplate.Proofs.Number.Shortest
/-!
The lexemes of a displayed condition.

A displayed condition has parentheses around its conjunctions, disjunctions and negations, and none
around its comparisons. Its texts stand in single quotes whatever is in them, and its numbers are
written even where no numeral writes them.

What is proved:
  1. `cuts_of_legible`: where all literals can be written, the displayed text has the lexemes that
     the condition was put together from (`lexemes`), and no others.
  2. `shows_of_named`: where one cannot, the text may still have lexemes, but not the names and
     literals of the condition in their order. What derives the condition has them so
     (`atoms_of_derives`).
-/

namespace SqlTemplate.Condition

open Text (LongestRun)

/-! ## Everywhere in a condition -/

def Everywhere (P : Condition → Prop) (c : Condition) : Prop := ∀ d, Within d c → P d

theorem Everywhere.part {P : Condition → Prop} {c d : Condition} (h : Everywhere P c)
    (hd : d ∈ c.parts) : Everywhere P d := fun e he => h e (.part hd he)

theorem Everywhere.pair {P : Condition → Prop} {c l r : Condition} (h : Everywhere P c)
    (hparts : c.parts = [l, r]) : Everywhere P l ∧ Everywhere P r := by
  constructor
  · exact h.part (by simp [hparts])
  · exact h.part (by simp [hparts])

theorem everywhere_of_parts {P : Condition → Prop} {c : Condition} (hc : P c)
    (hparts : ∀ d ∈ c.parts, Everywhere P d) : Everywhere P c := by
  intro d hd
  cases hd with
  | self => exact hc
  | part he h => exact hparts _ he d h

theorem everywhere_atom {P : Condition → Prop} {c : Condition} (hparts : c.parts = []) (hc : P c) :
    Everywhere P c := by
  refine everywhere_of_parts hc fun d hd => ?_
  rw [hparts] at hd
  cases hd

theorem everywhere_single {P : Condition → Prop} {c d : Condition} (hparts : c.parts = [d])
    (hc : P c) (hd : Everywhere P d) : Everywhere P c := by
  refine everywhere_of_parts hc ?_
  rw [hparts]
  exact List.forall_mem_singleton.mpr hd

theorem everywhere_pair {P : Condition → Prop} {c l r : Condition} (hparts : c.parts = [l, r])
    (hc : P c) (hl : Everywhere P l) (hr : Everywhere P r) : Everywhere P c := by
  refine everywhere_of_parts hc ?_
  rw [hparts]
  exact List.forall_mem_cons.mpr ⟨hl, List.forall_mem_singleton.mpr hr⟩

/-- Where it is a variable, its name can be one. -/
def Named : Condition → Prop
  | .var name => IsVariableName name
  | _ => True

/-- Where it is a literal, it can be written: a text between single quotes, and a number as a
numeral. -/
def Legible : Condition → Prop
  | .text t => '\x27' ∉ t.toList
  | .number x => x.isFinite = true
  | _ => True

/-! ## Cutting off lexemes -/

/-- In front of `rest` the text `w` is cut into the lexemes `ts`, and in no other way. -/
def Cut (w : List Char) (ts : List Token) (rest : List Char) : Prop :=
  ∀ us, Splits (w ++ rest) us ↔ ∃ vs, us = ts ++ vs ∧ Splits rest vs

theorem cut_lexeme {w rest : List Char} {t : Token} (hw : IsLexeme w t rest) : Cut w [t] rest := by
  intro us
  constructor
  · intro h
    obtain ⟨c, cs, _, hcons, hspace, hlex⟩ := reads_of_isLexeme hw
    rw [hcons] at h
    obtain ⟨u, r, vs, hlex', rfl, hvs⟩ := splits_cons hspace h
    rw [hlex] at hlex'
    cases hlex'
    exact ⟨vs, rfl, hvs⟩
  · rintro ⟨vs, rfl, hvs⟩
    exact .lexeme hw hvs

theorem cut_space (rest : List Char) : Cut [' '] [] rest := by
  intro us
  constructor
  · intro h
    obtain ⟨ts, hts, hus⟩ := tokens_of_splits h
    rw [List.singleton_append, tokens, if_pos (by rfl)] at hts
    exact ⟨us, rfl, hus ▸ splits_of_tokens hts⟩
  · rintro ⟨vs, rfl, hvs⟩
    exact .space rfl hvs

theorem Cut.append {v w rest : List Char} {ts us : List Token} (hv : Cut v ts (w ++ rest))
    (hw : Cut w us rest) : Cut (v ++ w) (ts ++ us) rest := by
  intro xs
  rw [List.append_assoc, hv xs]
  constructor
  · rintro ⟨ys, rfl, hys⟩
    obtain ⟨zs, rfl, hzs⟩ := (hw ys).mp hys
    exact ⟨zs, (List.append_assoc ..).symm, hzs⟩
  · rintro ⟨zs, rfl, hzs⟩
    exact ⟨us ++ zs, List.append_assoc .., (hw _).mpr ⟨zs, rfl, hzs⟩⟩

/-! ## Names and literals -/

def Ends (rest : List Char) : Prop := ∀ c ∈ rest.head?, c = ' ' ∨ c = ')'

theorem Ends.stops {rest : List Char} (h : Ends rest) {p : Char → Bool} (hspace : p ' ' = false)
    (hclosing : p ')' = false) : ∀ c ∈ rest.head?, p c = false := by
  intro c hc
  rcases h c hc with rfl | rfl
  · exact hspace
  · exact hclosing

theorem ends_closing (rest : List Char) : Ends (')' :: rest) := by
  intro c hc
  cases hc
  exact .inr rfl

theorem isLexeme_number {x : Binary64} (hx : x.isFinite = true) {rest : List Char}
    (hrest : Ends rest) : IsLexeme (Spelling.positional.write x) (.number x) rest := by
  have hstops : ∀ c ∈ rest.head?, isNumberChar c = false := hrest.stops rfl rfl
  have hread := Spelling.float?_write hx
  cases x with
  | nan => cases hx
  | infinite negative => cases hx
  | finite negative units hr =>
    obtain ⟨c, more, hcs, hc, hmore⟩ := Spelling.isNumeral_magnitude units
    have hmoreChars : more.all isNumberChar = true := by
      refine List.all_eq_true.mpr fun d hd => ?_
      rcases hmore d hd with h | rfl
      · rw [isNumberChar, h, Bool.true_or]
      · rfl
    rw [Spelling.write, hcs] at hread ⊢
    cases negative with
    | true =>
      have hall : (c :: more).all isNumberChar = true := by
        rw [List.all_cons, isNumberChar, hc, hmoreChars]
        rfl
      exact .number rfl ⟨hall, hstops⟩ hread
    | false =>
      have hstart : startsNumber c = true := by rw [startsNumber, hc]; rfl
      exact .number hstart ⟨hmoreChars, hstops⟩ hread

theorem isFinite_of_splits {x : Binary64} {rest : List Char} {us : List Token}
    (h : Splits (Spelling.positional.write x ++ rest) us) : x.isFinite = true := by
  cases x with
  | finite => rfl
  | nan =>
    obtain ⟨t, r, vs, hlex, _⟩ := splits_cons rfl h
    cases hlex
  | infinite negative =>
    cases negative with
    | true =>
      obtain ⟨t, r, vs, hlex, _⟩ := splits_cons rfl h
      cases hlex
    | false =>
      obtain ⟨t, r, vs, hlex, _⟩ := splits_cons rfl h
      cases hlex

theorem text_of_splits {cs : List Char} {us : List Token} (h : Splits ('\x27' :: cs) us) :
    ∃ s vs, us = .text (String.ofList s) :: vs ∧ '\x27' ∉ s := by
  obtain ⟨t, r, vs, hlex, rfl, _⟩ := splits_cons rfl h
  obtain ⟨s, _, hs, rfl⟩ := quotedText_eq_ok.mp hlex
  exact ⟨s, vs, rfl, hs⟩

/-! ## The lexemes of a displayed text -/

/-- The lexemes that a condition is displayed with. -/
def lexemes : Condition → List Token
  | .var name => [.var name]
  | .number x => [.number x]
  | .text s => [.text s]
  | .neg c => .negation :: .opening :: (lexemes c ++ [.closing])
  | .both l r => .opening :: (lexemes l ++ .conjunction :: lexemes r ++ [.closing])
  | .either l r => .opening :: (lexemes l ++ .disjunction :: lexemes r ++ [.closing])
  | .relates o l r => lexemes l ++ .op o :: lexemes r

def Token.isAtom : Token → Bool
  | .var _ | .number _ | .text _ => true
  | .conjunction | .disjunction | .negation | .opening | .closing | .op _ => false

def atoms (us : List Token) : List Token := us.filter Token.isAtom

theorem atoms_append (us vs : List Token) : atoms (us ++ vs) = atoms us ++ atoms vs :=
  List.filter_append us vs

theorem atoms_cons_of_not {t : Token} (ht : t.isAtom = false) (us : List Token) :
    atoms (t :: us) = atoms us := List.filter_cons_of_neg (by rw [ht]; decide)

/-- What stands between two parts of a displayed condition: a word or an operator in spaces. -/
structure Joint (w : List Char) (t : Token) : Prop where
  joins : t.isAtom = false
  ends : ∀ rest, Ends (w ++ rest)
  cut : ∀ rest, Cut w [t] rest

theorem joint_of_lexeme {w : List Char} {t : Token} (ht : t.isAtom = false)
    (hw : ∀ rest, IsLexeme w t (' ' :: rest)) : Joint (' ' :: (w ++ [' '])) t where
  joins := ht
  ends rest := by
    intro c hc
    cases hc
    exact .inl rfl
  cut rest := by
    have hword : Cut (w ++ [' ']) [t] rest := (cut_lexeme (hw rest)).append (cut_space rest)
    exact (cut_space _).append hword

theorem longestRun_space {w : List Char} (hw : w.all isNameChar = true) (rest : List Char) :
    LongestRun isNameChar w (' ' :: rest) := ⟨hw, fun c hc => by cases hc; rfl⟩

theorem joint_and : Joint " and ".toList .conjunction :=
  joint_of_lexeme rfl fun rest => .conjunction (longestRun_space rfl rest)

theorem joint_or : Joint " or ".toList .disjunction :=
  joint_of_lexeme rfl fun rest => .disjunction (longestRun_space rfl rest)

theorem joint_op (o : RelOp) : Joint (' ' :: (o.symbol.toList ++ [' '])) (.op o) :=
  joint_of_lexeme rfl fun _ => isLexeme_op rfl fun _ => by simp

theorem cut_not (rest : List Char) : Cut "not(".toList [.negation, .opening] rest := by
  have hrun : LongestRun isNameChar ['n', 'o', 't'] ('(' :: rest) :=
    ⟨rfl, fun c hc => by cases hc; rfl⟩
  exact (cut_lexeme (.negation hrun)).append (cut_lexeme .opening)

theorem display_text (s : String) :
    (display (.text s)).toList = '\x27' :: (s.toList ++ ['\x27']) := by
  simp [display, String.toList_append]

theorem display_neg (c : Condition) :
    (display (.neg c)).toList = "not(".toList ++ (c.display.toList ++ [')']) := by
  simp [display, String.toList_append]

theorem display_both (l r : Condition) : (display (.both l r)).toList =
    '(' :: (l.display.toList ++ (" and ".toList ++ r.display.toList) ++ [')']) := by
  simp [display, String.toList_append]

theorem display_either (l r : Condition) : (display (.either l r)).toList =
    '(' :: (l.display.toList ++ (" or ".toList ++ r.display.toList) ++ [')']) := by
  simp [display, String.toList_append]

theorem display_relates (o : RelOp) (l r : Condition) : (display (.relates o l r)).toList =
    l.display.toList ++ (' ' :: (o.symbol.toList ++ [' ']) ++ r.display.toList) := by
  simp [display, String.toList_append]

/-- In front of what may follow it, the displayed text has the lexemes of the condition. -/
def Cuts (c : Condition) : Prop := ∀ rest, Ends rest → Cut c.display.toList c.lexemes rest

theorem Cuts.pair {l r : Condition} {w rest : List Char} {t : Token} (hl : Cuts l) (hr : Cuts r)
    (hw : Joint w t) (hrest : Ends rest) :
    Cut (l.display.toList ++ (w ++ r.display.toList)) (l.lexemes ++ t :: r.lexemes) rest := by
  have hright : Cut (w ++ r.display.toList) (t :: r.lexemes) rest :=
    (hw.cut _).append (hr rest hrest)
  refine Cut.append (hl _ ?_) hright
  rw [List.append_assoc]
  exact hw.ends _

theorem cut_parenthesized {w : List Char} {ts : List Token} {rest : List Char}
    (h : Cut w ts (')' :: rest)) : Cut ('(' :: (w ++ [')'])) (.opening :: (ts ++ [.closing])) rest :=
  (cut_lexeme .opening).append (h.append (cut_lexeme .closing))

/-- A condition whose names and literals can be written is displayed with its lexemes. -/
theorem cuts_of_legible {c : Condition} (hnamed : Everywhere Named c)
    (hlegible : Everywhere Legible c) : Cuts c := by
  induction c with
  | var name =>
    intro rest hrest
    have hlexeme := isLexeme_variable (hnamed _ .self) (hrest.stops rfl rfl)
    have hdisplay : (display (.var name)).toList = '$' :: name.toList := by
      simp [display, String.toList_append]
    rw [hdisplay]
    exact cut_lexeme hlexeme
  | number x =>
    intro rest hrest
    rw [display, String.toList_ofList]
    exact cut_lexeme (isLexeme_number (hlegible _ .self) hrest)
  | text s =>
    intro rest _
    have hlexeme : IsLexeme ('\x27' :: (s.toList ++ ['\x27']))
        (.text (String.ofList s.toList)) rest := .text (.inl rfl) (hlegible _ .self)
    rw [String.ofList_toList] at hlexeme
    rw [display_text]
    exact cut_lexeme hlexeme
  | neg c ih =>
    intro rest _
    have hinner : Cuts c :=
      ih (hnamed.part List.mem_cons_self) (hlegible.part List.mem_cons_self)
    rw [display_neg]
    exact (cut_not _).append ((hinner _ (ends_closing rest)).append (cut_lexeme .closing))
  | both l r ihl ihr =>
    intro rest _
    obtain ⟨hnl, hnr⟩ := hnamed.pair rfl
    obtain ⟨hl, hr⟩ := hlegible.pair rfl
    rw [display_both]
    exact cut_parenthesized ((ihl hnl hl).pair (ihr hnr hr) joint_and (ends_closing rest))
  | either l r ihl ihr =>
    intro rest _
    obtain ⟨hnl, hnr⟩ := hnamed.pair rfl
    obtain ⟨hl, hr⟩ := hlegible.pair rfl
    rw [display_either]
    exact cut_parenthesized ((ihl hnl hl).pair (ihr hnr hr) joint_or (ends_closing rest))
  | relates o l r ihl ihr =>
    intro rest hrest
    obtain ⟨hnl, hnr⟩ := hnamed.pair rfl
    obtain ⟨hl, hr⟩ := hlegible.pair rfl
    rw [display_relates]
    exact (ihl hnl hl).pair (ihr hnr hr) (joint_op o) hrest

/-! ## Names and literals in their order -/

theorem atoms_of_derives {level : Level} {us : List Token} {c : Condition}
    (h : Derives level us c) : atoms us = atoms c.lexemes := by
  induction h with
  | disjunct _ ih => exact ih
  | conjunct _ ih => exact ih
  | alone _ ih => exact ih
  | either _ _ ihl ihr | both _ _ ihl ihr | relates _ _ _ ihl ihr =>
    simp_all [atoms, lexemes, Token.isAtom]
  | neg _ ih | parenthesized _ ih => simp_all [atoms, lexemes, Token.isAtom]
  | var | number | text => rfl

/-- If the displayed text has the names and literals of the condition in front, they were written
in it. -/
def Shows (c : Condition) : Prop := ∀ rest us, Ends rest → Splits (c.display.toList ++ rest) us →
  atoms c.lexemes <+: atoms us → Everywhere Legible c

theorem Shows.pair {l r : Condition} {w rest : List Char} {t : Token} {us : List Token}
    (hl : Shows l) (hr : Shows r) (hcuts : Everywhere Legible l → Cuts l) (hw : Joint w t)
    (hrest : Ends rest)
    (h : Splits (l.display.toList ++ (w ++ r.display.toList) ++ rest) us)
    (hatoms : atoms (l.lexemes ++ t :: r.lexemes) <+: atoms us) :
    Everywhere Legible l ∧ Everywhere Legible r := by
  rw [List.append_assoc, List.append_assoc] at h
  rw [atoms_append, atoms_cons_of_not hw.joins] at hatoms
  have hleft : Everywhere Legible l :=
    hl _ us (hw.ends _) h ((List.prefix_append ..).trans hatoms)
  -- The left part is as it should be, so the right part is cut where it begins.
  obtain ⟨vs, rfl, hvs⟩ := (hcuts hleft _ (hw.ends _) us).mp h
  obtain ⟨ws, rfl, hws⟩ := (hw.cut _ vs).mp hvs
  rw [atoms_append, List.prefix_append_right_inj, List.singleton_append,
    atoms_cons_of_not hw.joins] at hatoms
  exact ⟨hleft, hr rest ws hrest hws hatoms⟩

theorem splits_parenthesized {w rest : List Char} {ts us : List Token}
    (h : Splits ('(' :: (w ++ [')']) ++ rest) us)
    (hatoms : atoms (.opening :: (ts ++ [.closing])) <+: atoms us) :
    ∃ vs, Splits (w ++ ')' :: rest) vs ∧ atoms ts <+: atoms vs := by
  obtain ⟨vs, rfl, hvs⟩ := (cut_lexeme .opening us).mp h
  refine ⟨vs, by simpa using hvs, ?_⟩
  simpa [atoms, Token.isAtom] using hatoms

theorem shows_of_named {c : Condition} (hnamed : Everywhere Named c) : Shows c := by
  induction c with
  | var name => exact fun _ _ _ _ _ => everywhere_atom rfl trivial
  | number x =>
    intro rest us _ h _
    rw [display, String.toList_ofList] at h
    exact everywhere_atom rfl (isFinite_of_splits h)
  | text s =>
    intro rest us _ h hatoms
    rw [display_text] at h
    obtain ⟨t, vs, rfl, ht⟩ := text_of_splits h
    -- The first literal is the one that is behind the quote.
    have hfirst : [Token.text s] <+: .text (String.ofList t) :: atoms vs := hatoms
    have hs : s = String.ofList t := Token.text.inj (List.cons_prefix_cons.mp hfirst).1
    refine everywhere_atom rfl ?_
    rw [hs, Legible, String.toList_ofList]
    exact ht
  | neg c ih =>
    intro rest us _ h hatoms
    rw [display_neg, List.append_assoc] at h
    obtain ⟨vs, rfl, hvs⟩ := (cut_not _ us).mp h
    rw [List.append_assoc] at hvs
    have hinner : Everywhere Legible c := by
      refine ih (hnamed.part List.mem_cons_self) _ vs (ends_closing rest) hvs ?_
      simpa [atoms, lexemes, Token.isAtom] using hatoms
    exact everywhere_single rfl trivial hinner
  | both l r ihl ihr =>
    intro rest us _ h hatoms
    obtain ⟨hnl, hnr⟩ := hnamed.pair rfl
    rw [display_both] at h
    obtain ⟨vs, hvs, hatoms⟩ := splits_parenthesized h hatoms
    obtain ⟨hl, hr⟩ := (ihl hnl).pair (ihr hnr) (cuts_of_legible hnl) joint_and
      (ends_closing rest) hvs hatoms
    exact everywhere_pair rfl trivial hl hr
  | either l r ihl ihr =>
    intro rest us _ h hatoms
    obtain ⟨hnl, hnr⟩ := hnamed.pair rfl
    rw [display_either] at h
    obtain ⟨vs, hvs, hatoms⟩ := splits_parenthesized h hatoms
    obtain ⟨hl, hr⟩ := (ihl hnl).pair (ihr hnr) (cuts_of_legible hnl) joint_or
      (ends_closing rest) hvs hatoms
    exact everywhere_pair rfl trivial hl hr
  | relates o l r ihl ihr =>
    intro rest us hrest h hatoms
    obtain ⟨hnl, hnr⟩ := hnamed.pair rfl
    rw [display_relates] at h
    obtain ⟨hl, hr⟩ := (ihl hnl).pair (ihr hnr) (cuts_of_legible hnl) (joint_op o) hrest h hatoms
    exact everywhere_pair rfl trivial hl hr

end SqlTemplate.Condition
