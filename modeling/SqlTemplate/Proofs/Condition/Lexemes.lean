import SqlTemplate.Condition.Grammar
/-!
Cutting the text of a condition into lexemes.

What is proved:
  1. `isLexeme_of_lexeme` and `reads_of_isLexeme`: what is read in front of a text is the lexeme that
     stands there, and every lexeme that stands there is read.
  2. `splits_of_tokens` and `tokens_of_splits`: a text has lexemes if and only if it splits into them,
     so that no text splits in two ways.
  3. `suffix_of_tokens` and `suffix_of_tokens_error`: a lexeme and a fault are placed where the rest
     of the text begins.
-/

namespace SqlTemplate.Condition

open Text (LongestRun)

/-! ## Operators -/

theorem symbol_toList (o : RelOp) : o.symbol.toList = match o with
    | .eq => ['='] | .ne => ['!', '='] | .lt => ['<'] | .le => ['<', '='] | .gt => ['>']
    | .ge => ['>', '='] := by
  cases o <;> rfl

/-- Only the two operators of which another one is a longer form can be cut short. -/
theorem longest_iff {o : RelOp} {rest : List Char} :
    (∀ p : RelOp, p.symbol.toList <+: o.symbol.toList ++ rest →
      p.symbol.toList.length ≤ o.symbol.toList.length) ↔
    (o = .lt ∨ o = .gt → rest.head? ≠ some '=') := by
  simp only [symbol_toList]
  constructor
  · rintro h (rfl | rfl) hrest <;> obtain ⟨r, rfl⟩ := List.head?_eq_some_iff.mp hrest
    · exact absurd (h .le (by simp)) (by decide)
    · exact absurd (h .ge (by simp)) (by decide)
  · intro h p hp
    have hhead : ['='] <+: rest → rest.head? = some '=' := by
      rintro ⟨r, rfl⟩
      rfl
    cases o <;> cases p <;> simp_all

theorem isLexeme_op {o : RelOp} {w rest : List Char} (hw : o.symbol.toList = w)
    (h : o = .lt ∨ o = .gt → rest.head? ≠ some '=') : IsLexeme w (.op o) rest :=
  hw ▸ .op (longest_iff.mpr h)

theorem isLexeme_extended {short long : RelOp} {c : Char} {cs : List Char} {t : Token}
    {r : Remaining cs} (hshort : short.symbol.toList = [c]) (hlong : long.symbol.toList = [c, '='])
    (h : extended short long cs = (t, r)) : ∃ w, c :: cs = w ++ r.1 ∧ IsLexeme w t r.1 := by
  unfold extended at h
  split at h
  · cases h
    refine ⟨[c, '='], rfl, isLexeme_op hlong ?_⟩
    rintro (rfl | rfl) <;> simp [symbol_toList] at hlong
  · rename_i hne
    cases h
    refine ⟨[c], rfl, isLexeme_op hshort fun _ hhead => ?_⟩
    obtain ⟨r, rfl⟩ := List.head?_eq_some_iff.mp hhead
    exact hne r rfl

/-! ## The kinds of lexemes -/

theorem quotedText_eq_ok {q : Char} {cs : List Char} {t : Token} {r : Remaining cs} :
    quotedText q cs = .ok (t, r) ↔
      ∃ s, cs = s ++ q :: r.1 ∧ q ∉ s ∧ t = .text (String.ofList s) := by
  unfold quotedText
  constructor
  · intro h
    split at h
    · rename_i s rest hcut
      cases h
      exact ⟨s, by simp [Text.append_of_cutAt? hcut], Text.not_mem_of_cutAt?_singleton hcut, rfl⟩
    · cases h
  · rintro ⟨s, hcs, hs, rfl⟩
    have hcut := Text.cutAt?_singleton hs r.1
    rw [← hcs] at hcut
    split
    · rename_i before rest h
      rw [hcut] at h
      cases h
      rfl
    · rename_i h
      rw [hcut] at h
      cases h

theorem run_eq {p : Char → Bool} {cs w : List Char} {r : Remaining cs} :
    run p cs = (w, r) ↔ cs = w ++ r.1 ∧ LongestRun p w r.1 := by
  constructor
  · intro h
    cases h
    exact ⟨List.takeWhile_append_dropWhile.symm, Text.longestRun_takeWhile p cs⟩
  · rintro ⟨hcs, hrun⟩
    have htake := hrun.takeWhile_append
    have hdrop := hrun.dropWhile_append
    rw [← hcs] at htake hdrop
    exact Prod.ext htake (Subtype.ext hdrop)

theorem variableAfter_eq_ok {cs : List Char} {t : Token} {r : Remaining cs} :
    variableAfter cs = .ok (t, r) ↔ ∃ name, cs = name ++ r.1 ∧ LongestRun isNameChar name r.1 ∧
      name ≠ [] ∧ t = .var (String.ofList name) := by
  constructor
  · intro h
    cases hrun : run isNameChar cs with
    | mk name rest =>
      simp only [variableAfter, hrun] at h
      split at h
      · cases h
      · rename_i hne
        cases h
        obtain ⟨hcs, hlongest⟩ := run_eq.mp hrun
        exact ⟨name, hcs, hlongest, by simpa using hne, rfl⟩
  · rintro ⟨name, hcs, hlongest, hne, rfl⟩
    simp only [variableAfter, run_eq.mpr ⟨hcs, hlongest⟩]
    rw [if_neg (by simpa using hne)]

theorem numberFrom_eq_ok {c : Char} {cs : List Char} {t : Token} {r : Remaining cs} :
    numberFrom c cs = .ok (t, r) ↔ ∃ more x, cs = more ++ r.1 ∧ LongestRun isNumberChar more r.1 ∧
      Numeral.float? (c :: more) = some x ∧ t = .number x := by
  constructor
  · intro h
    cases hrun : run isNumberChar cs with
    | mk more rest =>
      simp only [numberFrom, hrun] at h
      split at h
      · rename_i x hx
        cases h
        obtain ⟨hcs, hlongest⟩ := run_eq.mp hrun
        exact ⟨more, x, hcs, hlongest, hx, rfl⟩
      · cases h
  · rintro ⟨more, x, hcs, hlongest, hx, rfl⟩
    simp only [numberFrom, run_eq.mpr ⟨hcs, hlongest⟩, hx]

theorem wordFrom_eq_ok {c : Char} {cs : List Char} {t : Token} {r : Remaining cs} :
    wordFrom c cs = .ok (t, r) ↔ ∃ more, cs = more ++ r.1 ∧ LongestRun isNameChar more r.1 ∧
      word? (c :: more) = some t := by
  constructor
  · intro h
    cases hrun : run isNameChar cs with
    | mk more rest =>
      simp only [wordFrom, hrun] at h
      split at h
      · rename_i u hu
        cases h
        obtain ⟨hcs, hlongest⟩ := run_eq.mp hrun
        exact ⟨more, hcs, hlongest, hu⟩
      · cases h
  · rintro ⟨more, hcs, hlongest, ht⟩
    simp only [wordFrom, run_eq.mpr ⟨hcs, hlongest⟩, ht]

theorem word?_eq_some {w : List Char} {t : Token} (h : word? w = some t) :
    (w = ['a', 'n', 'd'] ∧ t = .conjunction) ∨ (w = ['o', 'r'] ∧ t = .disjunction) ∨
      (w = ['n', 'o', 't'] ∧ t = .negation) := by
  unfold word? at h
  split at h
  · cases h; exact .inl ⟨‹_›, rfl⟩
  · split at h
    · cases h; exact .inr (.inl ⟨‹_›, rfl⟩)
    · split at h
      · cases h; exact .inr (.inr ⟨‹_›, rfl⟩)
      · cases h

theorem isNameChar_of_isLetter {c : Char} (h : isLetter c = true) : isNameChar c = true := by
  simp only [isNameChar, h, Bool.true_or]

theorem isLexeme_word {c : Char} {more rest : List Char} {t : Token} (hc : isLetter c = true)
    (hmore : LongestRun isNameChar more rest) (h : word? (c :: more) = some t) :
    IsLexeme (c :: more) t rest := by
  have hrun : LongestRun isNameChar (c :: more) rest :=
    ⟨by simp [isNameChar_of_isLetter hc, hmore.all], hmore.stops⟩
  rcases word?_eq_some h with ⟨hw, rfl⟩ | ⟨hw, rfl⟩ | ⟨hw, rfl⟩ <;> rw [hw] at hrun ⊢
  · exact .conjunction hrun
  · exact .disjunction hrun
  · exact .negation hrun

/-! ## One lexeme -/

theorem isLexeme_of_lexeme {c : Char} {cs : List Char} {t : Token} {r : Remaining cs}
    (h : lexeme c cs = .ok (t, r)) : ∃ w, c :: cs = w ++ r.1 ∧ IsLexeme w t r.1 := by
  -- One case for each kind of first character, in the order in which they are looked for.
  unfold lexeme at h
  by_cases hopening : c = '('
  · rw [if_pos hopening] at h
    cases h
    exact ⟨[c], rfl, hopening ▸ .opening⟩
  rw [if_neg hopening] at h
  by_cases hclosing : c = ')'
  · rw [if_pos hclosing] at h
    cases h
    exact ⟨[c], rfl, hclosing ▸ .closing⟩
  rw [if_neg hclosing] at h
  by_cases heq : c = '='
  · rw [if_pos heq] at h
    cases h
    exact ⟨[c], rfl, isLexeme_op (heq ▸ rfl) (by simp)⟩
  rw [if_neg heq] at h
  by_cases hne : c = '!'
  · rw [if_pos hne] at h
    split at h
    · cases h
      exact ⟨[c, '='], rfl, isLexeme_op (hne ▸ rfl) (by simp)⟩
    · cases h
  rw [if_neg hne] at h
  by_cases hlt : c = '<'
  · rw [if_pos hlt] at h
    exact isLexeme_extended (hlt ▸ rfl) (hlt ▸ rfl) (Except.ok.inj h)
  rw [if_neg hlt] at h
  by_cases hgt : c = '>'
  · rw [if_pos hgt] at h
    exact isLexeme_extended (hgt ▸ rfl) (hgt ▸ rfl) (Except.ok.inj h)
  rw [if_neg hgt] at h
  by_cases hquote : (c = '\x27' || c = '\x22') = true
  · rw [if_pos hquote] at h
    obtain ⟨s, hcs, hs, rfl⟩ := quotedText_eq_ok.mp h
    exact ⟨c :: (s ++ [c]), by simp [hcs], .text (by simpa using hquote) hs⟩
  rw [if_neg hquote] at h
  by_cases hdollar : c = '$'
  · rw [if_pos hdollar] at h
    obtain ⟨name, hcs, hrun, hname, rfl⟩ := variableAfter_eq_ok.mp h
    exact ⟨c :: name, congrArg (c :: ·) hcs, hdollar ▸ .var hname hrun⟩
  rw [if_neg hdollar] at h
  by_cases hnumber : startsNumber c = true
  · rw [if_pos hnumber] at h
    obtain ⟨more, x, hcs, hrun, hx, rfl⟩ := numberFrom_eq_ok.mp h
    exact ⟨c :: more, congrArg (c :: ·) hcs, .number hnumber hrun hx⟩
  rw [if_neg hnumber] at h
  by_cases hletter : isLetter c = true
  · rw [if_pos hletter] at h
    obtain ⟨more, hcs, hrun, ht⟩ := wordFrom_eq_ok.mp h
    exact ⟨c :: more, congrArg (c :: ·) hcs, isLexeme_word hletter hrun ht⟩
  · rw [if_neg hletter] at h
    cases h

/-- In front of `rest` the text `w` is read as the lexeme `t`. -/
def Reads (w : List Char) (t : Token) (rest : List Char) : Prop :=
  ∃ c cs h, w ++ rest = c :: cs ∧ isSpace c = false ∧ lexeme c cs = .ok (t, ⟨rest, h⟩)

theorem reads_op {o : RelOp} {rest : List Char} (h : o = .lt ∨ o = .gt → rest.head? ≠ some '=') :
    Reads o.symbol.toList (.op o) rest := by
  have extended_of_ne {short long : RelOp} {cs : List Char} (hne : cs.head? ≠ some '=') :
      extended short long cs = (.op short, .all cs) := by
    unfold extended
    split
    · exact absurd rfl hne
    · rfl
  rw [symbol_toList]
  cases o with
  | eq => exact ⟨'=', rest, Nat.le_refl _, rfl, rfl, rfl⟩
  | ne => exact ⟨'!', '=' :: rest, by simp, rfl, rfl, rfl⟩
  | lt =>
    refine ⟨'<', rest, Nat.le_refl _, rfl, rfl, ?_⟩
    exact congrArg Except.ok (extended_of_ne (h (.inl rfl)))
  | le => exact ⟨'<', '=' :: rest, by simp, rfl, rfl, rfl⟩
  | gt =>
    refine ⟨'>', rest, Nat.le_refl _, rfl, rfl, ?_⟩
    exact congrArg Except.ok (extended_of_ne (h (.inr rfl)))
  | ge => exact ⟨'>', '=' :: rest, by simp, rfl, rfl, rfl⟩

theorem reads_text {q : Char} {s : List Char} (hq : q = '\x27' ∨ q = '\x22') (hs : q ∉ s)
    (rest : List Char) : Reads (q :: (s ++ [q])) (.text (String.ofList s)) rest := by
  have hle : rest.length ≤ (s ++ q :: rest).length := by
    simp only [List.length_append, List.length_cons]
    omega
  refine ⟨q, s ++ q :: rest, hle, by simp, by rcases hq with rfl | rfl <;> rfl, ?_⟩
  have hquoted : lexeme q (s ++ q :: rest) = quotedText q (s ++ q :: rest) := by
    rcases hq with rfl | rfl <;> rfl
  rw [hquoted]
  exact quotedText_eq_ok.mpr ⟨s, rfl, hs, rfl⟩

/-- No number starts with a character that is skipped or that marks another lexeme. -/
theorem lexeme_number {c : Char} (hc : startsNumber c = true) (cs : List Char) :
    isSpace c = false ∧ lexeme c cs = numberFrom c cs := by
  have hne {d : Char} (hd : startsNumber d = false) : c ≠ d := by
    rintro rfl
    rw [hc] at hd
    cases hd
  have hspace : isSpace c = false := by
    simp [isSpace, hne (d := ' ') rfl, hne (d := '\t') rfl, hne (d := '\r') rfl,
      hne (d := '\n') rfl]
  have hquote : ¬ (c = '\x27' || c = '\x22') = true := by
    simp [hne (d := '\x27') rfl, hne (d := '\x22') rfl]
  refine ⟨hspace, ?_⟩
  unfold lexeme
  rw [if_neg (hne rfl), if_neg (hne rfl), if_neg (hne rfl), if_neg (hne rfl), if_neg (hne rfl),
    if_neg (hne rfl), if_neg hquote, if_neg (hne rfl), if_pos hc]

theorem wordFrom_word {c : Char} {more rest : List Char} {t : Token}
    {h : rest.length ≤ (more ++ rest).length} (ht : word? (c :: more) = some t)
    (hrun : LongestRun isNameChar (c :: more) rest) :
    wordFrom c (more ++ rest) = .ok (t, ⟨rest, h⟩) := by
  have hmore : LongestRun isNameChar more rest :=
    ⟨(Bool.and_eq_true_iff.mp hrun.all).2, hrun.stops⟩
  exact wordFrom_eq_ok.mpr ⟨more, rfl, hmore, ht⟩

theorem reads_of_isLexeme {w rest : List Char} {t : Token} (h : IsLexeme w t rest) :
    Reads w t rest := by
  have hle (w : List Char) : rest.length ≤ (w ++ rest).length := by
    rw [List.length_append]
    exact Nat.le_add_left ..
  cases h with
  | opening => exact ⟨'(', rest, Nat.le_refl _, rfl, rfl, rfl⟩
  | closing => exact ⟨')', rest, Nat.le_refl _, rfl, rfl, rfl⟩
  | op longest => exact reads_op (longest_iff.mp longest)
  | text hq hs => exact reads_text hq hs rest
  | @var name _ hne hrun =>
    refine ⟨'$', name ++ rest, hle name, rfl, rfl, ?_⟩
    exact variableAfter_eq_ok.mpr ⟨name, rfl, hrun, hne, rfl⟩
  | @number c more _ x hc hrun hx =>
    obtain ⟨hspace, hlexeme⟩ := lexeme_number hc (more ++ rest)
    refine ⟨c, more ++ rest, hle more, rfl, hspace, ?_⟩
    rw [hlexeme]
    exact numberFrom_eq_ok.mpr ⟨more, x, rfl, hrun, hx, rfl⟩
  | conjunction hrun => exact ⟨'a', _, hle ['n', 'd'], rfl, rfl, wordFrom_word (by decide) hrun⟩
  | disjunction hrun => exact ⟨'o', _, hle ['r'], rfl, rfl, wordFrom_word (by decide) hrun⟩
  | negation hrun => exact ⟨'n', _, hle ['o', 't'], rfl, rfl, wordFrom_word (by decide) hrun⟩

/-! ## All lexemes -/

theorem splits_of_tokens {cs : List Char} {ts : List Placed} (h : tokens cs = .ok ts) :
    Splits cs (ts.map (·.token)) := by
  fun_induction tokens cs generalizing ts with
  | case1 => cases h; exact .done
  | case2 c cs hc ih => exact .space hc (ih h)
  | case3 c cs hc f hf => cases h
  | case4 c cs hc t r hr hlex e he ih => cases h
  | case5 c cs hc t r hr hlex us hus ih =>
    cases h
    obtain ⟨w, hw, hlexeme⟩ := isLexeme_of_lexeme hlex
    rw [hw]
    exact .lexeme hlexeme (ih hus)

theorem tokens_of_splits {cs : List Char} {us : List Token} (h : Splits cs us) :
    ∃ ts, tokens cs = .ok ts ∧ ts.map (·.token) = us := by
  induction h with
  | done => exact ⟨[], by rw [tokens], rfl⟩
  | space hc h ih =>
    obtain ⟨ts, hts, hus⟩ := ih
    exact ⟨ts, by rw [tokens, if_pos hc, hts], hus⟩
  | lexeme hw h ih =>
    obtain ⟨ts, hts, hus⟩ := ih
    obtain ⟨c, cs, _, hcons, hspace, hlex⟩ := reads_of_isLexeme hw
    refine ⟨⟨_, c :: cs⟩ :: ts, ?_, by rw [List.map_cons, hus]⟩
    rw [hcons, tokens, if_neg (by rw [hspace]; decide), hlex]
    simp only [hts]

theorem splits_nil {us : List Token} (h : Splits [] us) : us = [] := by
  obtain ⟨ts, hts, rfl⟩ := tokens_of_splits h
  rw [tokens] at hts
  cases hts
  rfl

theorem splits_cons {c : Char} {cs : List Char} {us : List Token} (hspace : isSpace c = false)
    (h : Splits (c :: cs) us) :
    ∃ t r vs, lexeme c cs = .ok (t, r) ∧ us = t :: vs ∧ Splits r.1 vs := by
  obtain ⟨ts, hts, rfl⟩ := tokens_of_splits h
  rw [tokens, if_neg (by rw [hspace]; decide)] at hts
  rcases hlex : lexeme c cs with f | ⟨t, r, hr⟩
  · rw [hlex] at hts
    cases hts
  · rw [hlex] at hts
    rcases hrest : tokens r with e | vs
    · simp only [hrest] at hts
      cases hts
    · simp only [hrest] at hts
      cases hts
      exact ⟨t, ⟨r, hr⟩, _, rfl, rfl, splits_of_tokens hrest⟩

/-! ## Places -/

theorem suffix_of_lexeme {c : Char} {cs : List Char} {t : Token} {r : Remaining cs}
    (h : lexeme c cs = .ok (t, r)) : r.1 <:+ c :: cs := by
  obtain ⟨w, hw, _⟩ := isLexeme_of_lexeme h
  exact ⟨w, hw.symm⟩

theorem suffix_of_tokens {cs : List Char} {ts : List Placed} (h : tokens cs = .ok ts) :
    ∀ t ∈ ts, t.here <:+ cs := by
  fun_induction tokens cs generalizing ts with
  | case1 => cases h; exact fun t ht => by cases ht
  | case2 c cs hc ih => exact fun t ht => (ih h t ht).trans (List.suffix_cons c cs)
  | case3 c cs hc f hf => cases h
  | case4 c cs hc t r hr hlex e he ih => cases h
  | case5 c cs hc t r hr hlex us hus ih =>
    cases h
    intro u hu
    rcases List.mem_cons.mp hu with rfl | hu
    · exact List.suffix_rfl
    · exact (ih hus u hu).trans (suffix_of_lexeme hlex)

theorem suffix_of_tokens_error {cs : List Char} {e : Failure} (h : tokens cs = .error e) :
    e.here <:+ cs := by
  fun_induction tokens cs generalizing e with
  | case1 => cases h
  | case2 c cs hc ih => exact (ih h).trans (List.suffix_cons c cs)
  | case3 c cs hc f hf => cases h; exact List.suffix_rfl
  | case4 c cs hc t r hr hlex e he ih => cases h; exact (ih he).trans (suffix_of_lexeme hlex)
  | case5 c cs hc t r hr hlex us hus ih => cases h

end SqlTemplate.Condition
