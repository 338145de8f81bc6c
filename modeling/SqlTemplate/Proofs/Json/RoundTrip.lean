import SqlTemplate.Json.Reader
import SqlTemplate.Proofs.Json.Number
/-!
Documents are read from their own texts.

The readers hand on a rest that is known to be shorter, which their callers do not need: `stringOf`,
`documentOf`, `itemsOf` and `membersOf` leave it out, and equations say what each does by the next
character.

What is proved:
  1. `stringOf_escaped`: a text is read from between its quotes.
  2. `readAs_compact`: in front of everything that does not go on with a number, the text of a
     document is read as the document.
  3. `read?_compact`: so a document is read from its text, provided that it is not nested too deep
     and its numbers are read back (`Writable`).
-/

namespace SqlTemplate.Json

/-! ## Texts -/

/-- The codes of a text and what follows it. -/
def stringOf (cs : List Char) : Option (List Nat × List Char) :=
  (string? cs).map fun p => (p.1, p.2.1)

theorem stringOf_quote (r : List Char) : stringOf ('\x22' :: r) = some ([], r) := by
  rw [stringOf, string?]
  rfl

theorem stringOf_escape {n : Nat} {r rest : List Char} (h : escape? r = some (n, rest)) :
    stringOf ('\\' :: r) = (stringOf rest).map fun p => (n :: p.1, p.2) := by
  rw [stringOf, string?]
  split
  · rename_i hnone
    rw [hnone] at h
    cases h
  · rename_i hsome
    rw [hsome] at h
    cases h
    simp only [stringOf]
    split
    · rename_i hstring
      rw [hstring]
      rfl
    · rename_i hstring
      rw [hstring]
      rfl

theorem stringOf_plain {c : Char} (hquote : c ≠ '\x22') (hescape : c ≠ '\\')
    (hc : 0x20 ≤ c.toNat) (r : List Char) :
    stringOf (c :: r) = (stringOf r).map fun p => (c.toNat :: p.1, p.2) := by
  generalize hcs : c :: r = cs
  rw [stringOf]
  unfold string?
  split
  · cases hcs
  · exact absurd (List.cons.inj hcs).1 hquote
  · exact absurd (List.cons.inj hcs).1 hescape
  · cases hcs
    rw [if_neg (Nat.not_lt.mpr hc)]
    simp only [stringOf]
    split
    · rename_i hstring
      rw [hstring]
      rfl
    · rename_i hstring
      rw [hstring]
      rfl

theorem hexValue?_hexDigit : ∀ n < 16, hexValue? (hexDigit n) = some n := by decide

/-- A character is written as itself, or as an escape of its code. -/
theorem escaped_cases (c : Char) :
    (∃ body, escaped c = '\\' :: body ∧ ∀ rest, escape? (body ++ rest) = some (c.toNat, rest)) ∨
    (escaped c = [c] ∧ c ≠ '\x22' ∧ c ≠ '\\' ∧ 0x20 ≤ c.toNat) := by
  unfold escaped
  split
  case h_8 hquote hescape _ _ _ _ _ =>
    split
    · rename_i hcontrol
      refine .inl ⟨_, rfl, fun rest => ?_⟩
      have hhigh := hexValue?_hexDigit (c.toNat / 16) (by omega)
      have hlow := hexValue?_hexDigit (c.toNat % 16) (by omega)
      have hzero : hexValue? '0' = some 0 := rfl
      simp only [List.cons_append, List.nil_append, escape?, hex4?, hzero, hhigh, hlow]
      congr 2
      omega
    · rename_i hplain
      refine .inr ⟨rfl, ?_, ?_, by omega⟩
      · rintro rfl
        exact hquote rfl
      · rintro rfl
        exact hescape rfl
  all_goals
    rename_i hcode
    exact .inl ⟨_, rfl, fun rest => by rw [hcode]; rfl⟩

theorem stringOf_escaped (cs rest : List Char) :
    stringOf (cs.flatMap escaped ++ '\x22' :: rest) = some (cs.map Char.toNat, rest) := by
  induction cs with
  | nil => exact stringOf_quote rest
  | cons c cs ih =>
    rw [List.flatMap_cons, List.append_assoc]
    rcases escaped_cases c with ⟨body, hbody, hescape⟩ | ⟨hplain, hquote, hescape, hc⟩
    · rw [hbody, List.cons_append, stringOf_escape (hescape _), ih]
      rfl
    · rw [hplain, List.singleton_append, stringOf_plain hquote hescape hc, ih]
      rfl

/-! ## Documents -/

def documentOf (cs : List Char) : Option (Raw × List Char) :=
  (document? cs).map fun p => (p.1, p.2.1)

def itemsOf (cs : List Char) : Option (List Raw × List Char) :=
  (items? cs).map fun p => (p.1, p.2.1)

def membersOf (cs : List Char) : Option (List (List Nat × Raw) × List Char) :=
  (members? cs).map fun p => (p.1, p.2.1)

def literalOf (cs : List Char) : Option (Raw × List Char) :=
  (literal? cs).map fun p => (p.1, p.2.1)

theorem skip_cons {c : Char} (h : isSpace c = false) (cs : List Char) :
    skip (c :: cs) = c :: cs := by
  rw [skip, List.dropWhile_cons_of_neg (by simp [h])]

theorem documentOf_literal {c : Char} {cs more : List Char} (h : skip cs = c :: more)
    (harr : c ≠ '[') (hobj : c ≠ '\x7b') : documentOf cs = literalOf (c :: more) := by
  rw [← h, documentOf, document?]
  split
  · rename_i heq
    rw [h] at heq
    exact absurd (List.cons.inj heq).1 harr
  · rename_i heq
    rw [h] at heq
    exact absurd (List.cons.inj heq).1 hobj
  · rw [Option.map_map]
    rfl

theorem head?_ne {c : Char} {cs : List Char} (h : ∀ rest, cs = c :: rest → False) :
    cs.head? ≠ some c := by
  intro hhead
  obtain ⟨rest, heq⟩ := List.head?_eq_some_iff.mp hhead
  exact h rest heq

theorem documentOf_bracket (cs : List Char) : documentOf ('[' :: cs) =
    if (skip cs).head? = some ']' then some (.arr [], (skip cs).tail)
    else (itemsOf cs).map fun p => (.arr p.1, p.2) := by
  have hskip := skip_cons (c := '[') rfl cs
  rw [documentOf, document?]
  split
  · rename_i heq
    rw [hskip] at heq
    cases heq
    split
    · rename_i hclose
      rw [if_pos (List.head?_eq_some_iff.mpr ⟨_, hclose⟩), congrArg List.tail hclose]
      rfl
    · rename_i hopen
      rw [if_neg (head?_ne hopen), Option.map_map, itemsOf, Option.map_map]
      rfl
  · rename_i heq
    rw [hskip] at heq
    cases heq
  · rename_i hnone _
    exact absurd hskip (hnone _)

theorem documentOf_brace (cs : List Char) : documentOf ('\x7b' :: cs) =
    if (skip cs).head? = some '\x7d' then some (.obj [], (skip cs).tail)
    else (membersOf cs).map fun p => (.obj p.1, p.2) := by
  have hskip := skip_cons (c := '\x7b') rfl cs
  rw [documentOf, document?]
  split
  · rename_i heq
    rw [hskip] at heq
    cases heq
  · rename_i heq
    rw [hskip] at heq
    cases heq
    split
    · rename_i hclose
      rw [if_pos (List.head?_eq_some_iff.mpr ⟨_, hclose⟩), congrArg List.tail hclose]
      rfl
    · rename_i hopen
      rw [if_neg (head?_ne hopen), Option.map_map, membersOf, Option.map_map]
      rfl
  · rename_i hnone
    exact absurd hskip (hnone _)

theorem itemsOf_eq {cs rest : List Char} {r : Raw} (h : documentOf cs = some (r, rest)) :
    itemsOf cs =
      if (skip rest).head? = some ']' then some ([r], (skip rest).tail)
      else if (skip rest).head? = some ',' then
        (itemsOf (skip rest).tail).map fun p => (r :: p.1, p.2)
      else none := by
  obtain ⟨⟨_, _, _⟩, hdocument, heq⟩ := Option.map_eq_some_iff.mp h
  cases heq
  rw [itemsOf, items?]
  split
  · rename_i hnone
    rw [hnone] at hdocument
    cases hdocument
  · rename_i hsome
    rw [hsome] at hdocument
    cases hdocument
    split
    · rename_i hclose
      rw [if_pos (List.head?_eq_some_iff.mpr ⟨_, hclose⟩), congrArg List.tail hclose]
      rfl
    · rename_i hcomma
      have hhead := List.head?_eq_some_iff.mpr ⟨_, hcomma⟩
      rw [if_neg (by rw [hhead]; decide), if_pos hhead, congrArg List.tail hcomma, Option.map_map,
        itemsOf, Option.map_map]
      rfl
    · rename_i hopen hlast
      rw [if_neg (head?_ne hopen), if_neg (head?_ne hlast)]
      rfl

theorem membersOf_eq {cs more rest : List Char} {name : List Nat} {r : Raw}
    (hname : stringOf cs = some (name, ':' :: more)) (h : documentOf more = some (r, rest)) :
    membersOf ('\x22' :: cs) =
      if (skip rest).head? = some '\x7d' then some ([(name, r)], (skip rest).tail)
      else if (skip rest).head? = some ',' then
        (membersOf (skip rest).tail).map fun p => ((name, r) :: p.1, p.2)
      else none := by
  have hquote := skip_cons (c := '\x22') rfl cs
  have hcolon := skip_cons (c := ':') rfl more
  obtain ⟨⟨_, _, _⟩, hstring, heq⟩ := Option.map_eq_some_iff.mp hname
  cases heq
  obtain ⟨⟨_, _, _⟩, hdocument, heq⟩ := Option.map_eq_some_iff.mp h
  cases heq
  rw [membersOf, members?]
  split
  · rename_i heq
    rw [hquote] at heq
    cases heq
    rw [hstring]
    simp only
    split
    · rename_i heq
      rw [hcolon] at heq
      cases heq
      rw [hdocument]
      simp only
      split
      · rename_i hclose
        rw [if_pos (List.head?_eq_some_iff.mpr ⟨_, hclose⟩), congrArg List.tail hclose]
        rfl
      · rename_i hcomma
        have hhead := List.head?_eq_some_iff.mpr ⟨_, hcomma⟩
        rw [if_neg (by rw [hhead]; decide), if_pos hhead, congrArg List.tail hcomma,
          Option.map_map, membersOf, Option.map_map]
        rfl
      · rename_i hopen hlast
        rw [if_neg (head?_ne hopen), if_neg (head?_ne hlast)]
        rfl
    · rename_i hnone
      exact absurd hcolon (hnone _)
  · rename_i hnone
    exact absurd hquote (hnone _)

/-! ## Documents without parts -/

theorem literalOf_text (cs : List Char) :
    literalOf ('\x22' :: cs) = (stringOf cs).map fun p => (.text p.1, p.2) := by
  rw [literalOf, literal?, Option.map_map, stringOf, Option.map_map]
  rfl

theorem literalOf_number {cs rest : List Char} {l : Lexeme} (h : lexeme? cs = some (l, rest)) :
    literalOf cs = some (.number l, rest) := by
  obtain ⟨c, more, hcs, hc⟩ := head_of_lexeme? h
  rw [literalOf]
  unfold literal?
  split
  case h_5 =>
    split
    · rename_i hnone
      rw [hnone] at h
      cases h
    · rename_i hsome
      rw [hsome] at h
      cases h
      rfl
  all_goals
    cases hcs
    rcases hc with hc | hc <;> cases hc

/-! ## Written documents -/

/-- A number is read back if its text is read as this number. Not every finite one is: the reader
keeps no more digits than fit its significand, and rounds twice. -/
def ReadsBack (x : Binary64) : Prop :=
  ∃ l, lexeme? (Spelling.json.write x) = some (l, []) ∧ l.json? = some (.float x)

theorem ReadsBack.isFinite {x : Binary64} (h : ReadsBack x) : x.isFinite = true := by
  obtain ⟨l, hl, -⟩ := h
  cases x with
  | nan => cases hl
  | infinite negative => cases negative <;> cases hl
  | finite => rfl

theorem readsBack_half : ReadsBack (.ofDecimal false ⟨5, -1⟩) := by
  have hwrite : Spelling.json.write (.ofDecimal false ⟨5, -1⟩) = ['0', '.', '5'] := by
    decide +kernel
  have hmagnitude : magnitude 5 (-1) none = some (.ofDecimal false ⟨5, -1⟩) := by
    rw [magnitude, scaled]
    decide +kernel
  refine ⟨⟨false, ['0'], some ['5'], none⟩, ?_, ?_⟩
  · rw [hwrite]
    rfl
  · exact congrArg (Option.map Json.float) hmagnitude

/-- The documents nested at most so deep whose numbers are read back: integers are those of 64
bits, with or without a sign. -/
inductive Writable : Nat → Json → Prop
  | null {depth : Nat} : Writable depth .null
  | bool {depth : Nat} (b : Bool) : Writable depth (.bool b)
  | int {depth : Nat} {i : Int} (hmin : Int64.minValue.toInt ≤ i) (hmax : i ≤ maxSignificand) :
    Writable depth (.int i)
  | float {depth : Nat} {x : Binary64} (hx : ReadsBack x) : Writable depth (.float x)
  | text {depth : Nat} (s : String) : Writable depth (.text s)
  | arr {depth : Nat} {items : List Json} (h : ∀ j ∈ items, Writable depth j) :
    Writable (depth + 1) (.arr items)
  | obj {depth : Nat} {members : List (String × Json)} (h : ∀ m ∈ members, Writable depth m.2) :
    Writable (depth + 1) (.obj members)

theorem Writable.mono {depth deeper : Nat} {j : Json} (h : Writable depth j)
    (hle : depth ≤ deeper) : Writable deeper j := by
  induction h generalizing deeper with
  | null => exact .null
  | bool b => exact .bool b
  | int hmin hmax => exact .int hmin hmax
  | float hx => exact .float hx
  | text s => exact .text s
  | arr _ ih =>
    obtain ⟨n, rfl⟩ := Nat.exists_eq_add_of_lt hle
    exact .arr fun j hj => ih j hj (Nat.le_add_right _ n)
  | obj _ ih =>
    obtain ⟨n, rfl⟩ := Nat.exists_eq_add_of_lt hle
    exact .obj fun m hm => ih m hm (Nat.le_add_right _ n)

/-- A text is read as a document in front of everything that ends a number. -/
def ReadAs (depth : Nat) (cs : List Char) (j : Json) : Prop :=
  ∀ rest, EndsNumber rest →
    ∃ r : Raw, documentOf (cs ++ rest) = some (r, rest) ∧ r.json? depth = some j

theorem endsNumber_cons {c : Char}
    (h : (Numeral.isDigit c || c == '.' || c == 'e' || c == 'E') = false) (cs : List Char) :
    EndsNumber (c :: cs) := by
  intro d hd
  cases hd
  simpa [and_assoc] using h

theorem start_of_number {c : Char} (h : Numeral.isDigit c = true ∨ c = '-') :
    isSpace c = false ∧ c ≠ '[' ∧ c ≠ '\x7b' := by
  refine ⟨Bool.eq_false_iff.mpr fun hspace => ?_, ?_, ?_⟩
  · simp only [isSpace, Bool.or_eq_true, beq_iff_eq] at hspace
    rcases hspace with ((rfl | rfl) | rfl) | rfl <;> rcases h with h | h <;> cases h
  · rintro rfl
    rcases h with h | h <;> cases h
  · rintro rfl
    rcases h with h | h <;> cases h

theorem readAs_number {depth : Nat} {cs : List Char} {l : Lexeme} {j : Json}
    (hl : lexeme? cs = some (l, [])) (hj : l.json? = some j) : ReadAs depth cs j := by
  intro rest hrest
  have hread := lexeme?_append hrest hl
  obtain ⟨c, more, heq, hc⟩ := head_of_lexeme? hread
  obtain ⟨hspace, harr, hobj⟩ := start_of_number hc
  refine ⟨.number l, ?_, hj⟩
  rw [heq, documentOf_literal (skip_cons hspace more) harr hobj, ← heq, literalOf_number hread]
  rfl

theorem quoted_toList (s : String) :
    (quoted s).toList = '\x22' :: (s.toList.flatMap escaped ++ ['\x22']) :=
  String.toList_ofList

theorem text?_map_toNat (s : String) : text? (s.toList.map Char.toNat) = some s := by
  rw [text?, characters?_map_toNat, Option.map_some, String.ofList_toList]

theorem readAs_text {depth : Nat} (s : String) : ReadAs depth (quoted s).toList (.text s) := by
  intro rest _
  refine ⟨.text (s.toList.map Char.toNat), ?_, ?_⟩
  · rw [quoted_toList, List.cons_append, List.append_assoc, List.singleton_append,
      documentOf_literal (skip_cons rfl _) (by decide) (by decide), literalOf_text, stringOf_escaped]
    rfl
  · rw [Raw.json?, text?_map_toNat]
    rfl

/-! ## Parts -/

theorem head?_ne_of_itemsOf {cs rest : List Char} {rs : List Raw}
    (h : itemsOf cs = some (rs, rest)) : (skip cs).head? ≠ some ']' := by
  intro hhead
  obtain ⟨more, hskip⟩ := List.head?_eq_some_iff.mp hhead
  have hnone : document? cs = none := by
    have hdocument : documentOf cs = none := documentOf_literal hskip (by decide) (by decide)
    exact Option.map_eq_none_iff.mp hdocument
  rw [itemsOf, items?, hnone] at h
  cases h

theorem itemsOf_compactItems {depth : Nat} {items : List Json} (hne : items ≠ [])
    (h : ∀ j ∈ items, ReadAs depth (compact j).toList j) (rest : List Char) :
    ∃ rs, itemsOf ((compactItems items).toList ++ ']' :: rest) = some (rs, rest) ∧
      Raw.jsonItems? depth rs = some items := by
  induction items with
  | nil => exact absurd rfl hne
  | cons j js ih =>
    obtain ⟨hj, hjs⟩ := List.forall_mem_cons.mp h
    cases js with
    | nil =>
      obtain ⟨r, hr, hjson⟩ := hj (']' :: rest) (endsNumber_cons rfl rest)
      refine ⟨[r], ?_, ?_⟩
      · rw [compactItems, itemsOf_eq hr, skip_cons rfl]
        rfl
      · rw [Raw.jsonItems?, hjson, Raw.jsonItems?]
        rfl
    | cons k ks =>
      obtain ⟨rs, hrs, hjsons⟩ := ih (List.cons_ne_nil k ks) hjs
      have htext : (compactItems (j :: k :: ks)).toList ++ ']' :: rest =
          (compact j).toList ++ ',' :: ((compactItems (k :: ks)).toList ++ ']' :: rest) := by
        simp [compactItems]
      obtain ⟨r, hr, hjson⟩ := hj _ (endsNumber_cons (c := ',') rfl _)
      refine ⟨r :: rs, ?_, ?_⟩
      · rw [htext, itemsOf_eq hr, skip_cons rfl, List.head?_cons, if_neg (by decide), if_pos rfl,
          List.tail_cons, hrs]
        rfl
      · rw [Raw.jsonItems?, hjson, hjsons]
        rfl

theorem readAs_arr {depth : Nat} {items : List Json}
    (h : ∀ j ∈ items, ReadAs depth (compact j).toList j) :
    ReadAs (depth + 1) (compact (.arr items)).toList (.arr items) := by
  intro rest _
  have htext : (compact (.arr items)).toList ++ rest =
      '[' :: ((compactItems items).toList ++ ']' :: rest) := by
    simp [compact]
  rw [htext, documentOf_bracket]
  by_cases hne : items = []
  · subst hne
    exact ⟨.arr [], rfl, rfl⟩
  · obtain ⟨rs, hrs, hjsons⟩ := itemsOf_compactItems hne h rest
    refine ⟨.arr rs, ?_, ?_⟩
    · rw [if_neg (head?_ne_of_itemsOf hrs), hrs]
      rfl
    · rw [Raw.json?, hjsons]
      rfl

theorem head?_ne_of_membersOf {cs rest : List Char} {ms : List (List Nat × Raw)}
    (h : membersOf cs = some (ms, rest)) : (skip cs).head? ≠ some '\x7d' := by
  intro hhead
  obtain ⟨more, hskip⟩ := List.head?_eq_some_iff.mp hhead
  rw [membersOf, members?] at h
  split at h
  · rename_i hquote
    rw [hskip] at hquote
    cases hquote
  · cases h

theorem membersOf_compactMembers {depth : Nat} {members : List (String × Json)} (hne : members ≠ [])
    (h : ∀ m ∈ members, ReadAs depth (compact m.2).toList m.2) (rest : List Char) :
    ∃ ms, membersOf ((compactMembers members).toList ++ '\x7d' :: rest) = some (ms, rest) ∧
      Raw.jsonMembers? depth ms = some members := by
  induction members with
  | nil => exact absurd rfl hne
  | cons m members ih =>
    obtain ⟨name, j⟩ := m
    obtain ⟨hj, hmembers⟩ := List.forall_mem_cons.mp h
    cases members with
    | nil =>
      have htext : (compactMembers [(name, j)]).toList ++ '\x7d' :: rest =
          '\x22' :: (name.toList.flatMap escaped ++ '\x22' :: ':' :: ((compact j).toList ++
            '\x7d' :: rest)) := by
        simp [compactMembers, quoted_toList]
      obtain ⟨r, hr, hjson⟩ := hj _ (endsNumber_cons (c := '\x7d') rfl rest)
      refine ⟨[(name.toList.map Char.toNat, r)], ?_, ?_⟩
      · rw [htext, membersOf_eq (stringOf_escaped _ _) hr, skip_cons rfl]
        rfl
      · rw [Raw.jsonMembers?, text?_map_toNat, hjson, Raw.jsonMembers?]
        rfl
    | cons k ks =>
      obtain ⟨ms, hms, hjsons⟩ := ih (List.cons_ne_nil k ks) hmembers
      have htext : (compactMembers ((name, j) :: k :: ks)).toList ++ '\x7d' :: rest =
          '\x22' :: (name.toList.flatMap escaped ++ '\x22' :: ':' :: ((compact j).toList ++
            ',' :: ((compactMembers (k :: ks)).toList ++ '\x7d' :: rest))) := by
        simp [compactMembers, quoted_toList]
      obtain ⟨r, hr, hjson⟩ := hj _ (endsNumber_cons (c := ',') rfl _)
      refine ⟨(name.toList.map Char.toNat, r) :: ms, ?_, ?_⟩
      · rw [htext, membersOf_eq (stringOf_escaped _ _) hr, skip_cons rfl, List.head?_cons,
          if_neg (by decide), if_pos rfl, List.tail_cons, hms]
        rfl
      · rw [Raw.jsonMembers?, text?_map_toNat, hjson, hjsons]
        rfl

theorem readAs_obj {depth : Nat} {members : List (String × Json)}
    (h : ∀ m ∈ members, ReadAs depth (compact m.2).toList m.2) :
    ReadAs (depth + 1) (compact (.obj members)).toList (.obj members) := by
  intro rest _
  have htext : (compact (.obj members)).toList ++ rest =
      '\x7b' :: ((compactMembers members).toList ++ '\x7d' :: rest) := by
    simp [compact]
  rw [htext, documentOf_brace]
  by_cases hne : members = []
  · subst hne
    exact ⟨.obj [], rfl, rfl⟩
  · obtain ⟨ms, hms, hjsons⟩ := membersOf_compactMembers hne h rest
    refine ⟨.obj ms, ?_, ?_⟩
    · rw [if_neg (head?_ne_of_membersOf hms), hms]
      rfl
    · rw [Raw.json?, hjsons]
      rfl

theorem readAs_compact {depth : Nat} {j : Json} (h : Writable depth j) :
    ReadAs depth j.compact.toList j := by
  induction h with
  | null =>
    intro rest _
    refine ⟨.null, ?_, rfl⟩
    rw [compact]
    exact documentOf_literal (skip_cons rfl _) (by decide) (by decide)
  | bool b =>
    intro rest _
    refine ⟨.bool b, ?_, rfl⟩
    rw [compact]
    cases b <;> exact documentOf_literal (skip_cons rfl _) (by decide) (by decide)
  | int hmin hmax =>
    rw [compact]
    exact readAs_number (lexeme?_integerText _) (json?_integer hmin hmax)
  | float hx =>
    rw [compact, number, if_pos hx.isFinite, String.toList_ofList]
    obtain ⟨l, hl, hj⟩ := hx
    exact readAs_number hl hj
  | text s =>
    rw [compact]
    exact readAs_text s
  | arr _ ih => exact readAs_arr ih
  | obj _ ih => exact readAs_obj ih

/-- A document that is not nested too deep and whose numbers are read back is read from its own
text. -/
theorem read?_compact {j : Json} (h : Writable maxDepth j) : read? j.compact = some j := by
  obtain ⟨_, hr, hjson⟩ := readAs_compact h [] nofun
  rw [List.append_nil] at hr
  obtain ⟨⟨r, _, _⟩, hdocument, heq⟩ := Option.map_eq_some_iff.mp hr
  cases heq
  have hread : Raw.read? j.compact = some r := by
    rw [Raw.read?, hdocument]
    rfl
  rw [read?, hread, Option.bind_some, hjson]

end SqlTemplate.Json
