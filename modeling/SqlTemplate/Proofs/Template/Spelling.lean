import SqlTemplate.Proofs.Template.EmptyText
/-!
Ways to write a text in a template.

A character can be written as itself, by a reference with a word, or by its number in decimal or
hexadecimal digits, and a whole text can be written as a section of character data. What is proved:
  1. `numeral?_digits`: digits of a base denote the number that they write, with leading zeros and in
     either case.
  2. `resolved_spelling`: so a text with references resolves to the text that is meant, if no reference
     is longer than ten bytes.
  3. `signs?_spelling`, `signs?_section`: a text with references and a section have the characters of
     the text as their signs, but for the empty section, which is an empty text.
  4. `prune_spelling`: so all ways to write a text prune to the same SQL, wherever in the content the
     text stands. `prune_long_reference` is a reference that is not read, as it is too long.
-/

namespace SqlTemplate.Template

/-- The character is the digit of a base with the value; a letter may be a small or a large one. -/
def IsDigit (base : Nat) (c : Char) (d : Nat) : Prop :=
  d < base ∧ (c = Nat.digitChar d ∨ c = (Nat.digitChar d).toUpper)

/-- Digits of a base write a number. -/
inductive Digits (base : Nat) : List Char → Nat → Prop
  | one {c : Char} {d : Nat} (hc : IsDigit base c d) : Digits base [c] d
  | more {cs : List Char} {n : Nat} {c : Char} {d : Nat} (h : Digits base cs n)
      (hc : IsDigit base c d) : Digits base (cs ++ [c]) (base * n + d)

/-- What stands between the ampersand and the semicolon of a reference to a character. -/
inductive Refers : List Char → Char → Prop
  | word {word : List Char} {c : Char} (h : entityWord? c = some word) : Refers word c
  | decimal {ds : List Char} {c : Char} (h : Digits 10 ds c.toNat) : Refers ('#' :: ds) c
  | hexadecimal {x : Char} {ds : List Char} {c : Char} (hx : x = 'x' ∨ x = 'X')
      (h : Digits 16 ds c.toNat) : Refers ('#' :: x :: ds) c

/-- The first text writes the second, character by character: by a reference of at most ten bytes, or
as it is if it is neither an ampersand nor an opening bracket. -/
inductive Spells : List Char → List Char → Prop
  | nil : Spells [] []
  | plain {c : Char} {e s : List Char} (hamp : c ≠ '&') (hlt : c ≠ '<') (h : Spells e s) :
      Spells (c :: e) (c :: s)
  | reference {r : List Char} {c : Char} {e s : List Char} (hr : Refers r c)
      (hshort : Text.byteLength r ≤ 10) (h : Spells e s) :
      Spells ('&' :: (r ++ ';' :: e)) (c :: s)

def sectionStart : List Char := ['<', '!', '[', 'C', 'D', 'A', 'T', 'A', '[']

def sectionEnd : List Char := [']', ']', '>']

/-! ## Digits -/

/-- What a digit in a base up to sixteen is: it is read with its value, and marks nothing. -/
structure PlainDigit (c : Char) (d : Nat) : Prop where
  read : ('0' ≤ c ∧ c ≤ '9') ∧ c.toNat - 48 = d ∨
    ¬('0' ≤ c ∧ c ≤ '9') ∧ ('a' ≤ c ∧ c ≤ 'z') ∧ c.toNat - 87 = d ∨
    ¬('0' ≤ c ∧ c ≤ '9') ∧ ¬('a' ≤ c ∧ c ≤ 'z') ∧ ('A' ≤ c ∧ c ≤ 'Z') ∧ c.toNat - 55 = d
  plain : c ∉ [';', '<', '+', 'x', 'X']

theorem plainDigit_of_isDigit {base d : Nat} {c : Char} (hbase : base ≤ 16)
    (h : IsDigit base c d) : PlainDigit c d := by
  have hall : ∀ d : Fin 16, ∀ c ∈ [Nat.digitChar d, (Nat.digitChar d).toUpper],
      (('0' ≤ c ∧ c ≤ '9') ∧ c.toNat - 48 = d ∨
        ¬('0' ≤ c ∧ c ≤ '9') ∧ ('a' ≤ c ∧ c ≤ 'z') ∧ c.toNat - 87 = d ∨
        ¬('0' ≤ c ∧ c ≤ '9') ∧ ¬('a' ≤ c ∧ c ≤ 'z') ∧ ('A' ≤ c ∧ c ≤ 'Z') ∧ c.toNat - 55 = d) ∧
      c ∉ [';', '<', '+', 'x', 'X'] := by decide
  obtain ⟨hd, hc⟩ := h
  obtain ⟨hread, hplain⟩ := hall ⟨d, Nat.lt_of_lt_of_le hd hbase⟩ c (by simpa using hc)
  exact ⟨hread, hplain⟩

theorem Digits.plain {base n : Nat} {ds : List Char} (hbase : base ≤ 16) (h : Digits base ds n) :
    ds ≠ [] ∧ ∀ c ∈ ds, c ∉ [';', '<', '+', 'x', 'X'] := by
  induction h with
  | one hc =>
    refine ⟨List.cons_ne_nil _ _, fun d hd => ?_⟩
    rw [List.mem_singleton.mp hd]
    exact (plainDigit_of_isDigit hbase hc).plain
  | more _ hc ih =>
    refine ⟨by simp, fun d hd => ?_⟩
    rcases List.mem_append.mp hd with hd | hd
    · exact ih.2 d hd
    · rw [List.mem_singleton.mp hd]
      exact (plainDigit_of_isDigit hbase hc).plain

theorem foldl_digits {base n : Nat} {ds : List Char} {value : Char → Option Nat}
    (hvalue : ∀ c d, IsDigit base c d → value c = some d) (h : Digits base ds n) :
    ds.foldl (fun acc c => acc.bind fun n => (value c).map (base * n + ·)) (some 0) = some n := by
  induction h with
  | one hc => simp [hvalue _ _ hc]
  | more _ hc ih => rw [List.foldl_append, ih]; simp [hvalue _ _ hc]

theorem numeral?_digits {base n : Nat} {ds : List Char} (hbase : base ≤ 16)
    (h : Digits base ds n) : numeral? base ds = some n := by
  obtain ⟨hne, hplain⟩ := h.plain hbase
  unfold numeral?
  split
  · exact absurd (by simp) (hplain '+' List.mem_cons_self)
  · rw [if_neg (by simpa using hne)]
    refine foldl_digits (fun c d hc => ?_) h
    have hd : d < base := hc.1
    rcases (plainDigit_of_isDigit hbase hc).read with
      ⟨hdigit, hread⟩ | ⟨hdigit, hsmall, hread⟩ | ⟨hdigit, hsmall, hlarge, hread⟩
    · simp only [if_pos hdigit, hread, if_pos hd]
    · simp only [if_neg hdigit, if_pos hsmall, hread, if_pos hd]
    · simp only [if_neg hdigit, if_neg hsmall, if_pos hlarge, hread, if_pos hd]

/-! ## References -/

theorem ofCodePoint?_toNat (c : Char) : ofCodePoint? c.toNat = some c := by
  have hvalid : c.toNat.isValidChar := c.valid
  rw [ofCodePoint?, if_pos hvalid, Char.ofNat_toNat]

/-- A reference names its character, and a semicolon or an opening bracket does not stand in it. -/
theorem Refers.entity {r : List Char} {c : Char} (h : Refers r c) :
    entity? r = some c ∧ ';' ∉ r ∧ '<' ∉ r := by
  cases h with
  | word h =>
    obtain ⟨hentity, hletters, _⟩ := entityWord?_plain h
    exact ⟨hentity, fun hmem => isLetter_ne (hletters _ hmem) (by decide) rfl,
      fun hmem => isLetter_ne (hletters _ hmem) (by decide) rfl⟩
  | @decimal ds _ h =>
    obtain ⟨hne, hplain⟩ := h.plain (by decide)
    have hmem {d : Char} (hd : d ∈ [';', '<', '+', 'x', 'X']) : d ∉ ds :=
      fun hmem => hplain d hmem hd
    refine ⟨?_, ?_, ?_⟩
    · have hx (rest : List Char) : ds ≠ 'x' :: rest := by
        rintro rfl
        exact hmem (by simp) List.mem_cons_self
      have hX (rest : List Char) : ds ≠ 'X' :: rest := by
        rintro rfl
        exact hmem (by simp) List.mem_cons_self
      have hentity : entity? ('#' :: ds) = (numeral? 10 ds).bind ofCodePoint? := by
        simp [entity?]
      rw [hentity, numeral?_digits (by decide) h, Option.bind_some, ofCodePoint?_toNat]
    · exact List.not_mem_cons_of_ne_of_not_mem (by decide) (hmem (by simp))
    · exact List.not_mem_cons_of_ne_of_not_mem (by decide) (hmem (by simp))
  | @hexadecimal x ds _ hx h =>
    obtain ⟨hne, hplain⟩ := h.plain (by decide)
    have hmem {d : Char} (hd : d ∈ [';', '<', '+', 'x', 'X']) : d ∉ ds :=
      fun hmem => hplain d hmem hd
    refine ⟨?_, ?_, ?_⟩
    · have hentity : entity? ('#' :: x :: ds) = (numeral? 16 ds).bind ofCodePoint? := by
        rcases hx with rfl | rfl <;> simp [entity?]
      rw [hentity, numeral?_digits (by decide) h, Option.bind_some, ofCodePoint?_toNat]
    · refine List.not_mem_cons_of_ne_of_not_mem (by decide)
        (List.not_mem_cons_of_ne_of_not_mem ?_ (hmem (by simp)))
      rcases hx with rfl | rfl <;> decide
    · refine List.not_mem_cons_of_ne_of_not_mem (by decide)
        (List.not_mem_cons_of_ne_of_not_mem ?_ (hmem (by simp)))
      rcases hx with rfl | rfl <;> decide

/-- A text with references resolves to the text that is meant. -/
theorem resolved_spelling {e s : List Char} (h : Spells e s) (after : List Char) :
    resolved after e = .ok s ∧ '<' ∉ e := by
  induction h with
  | nil => exact ⟨by rw [resolved], List.not_mem_nil⟩
  | plain hamp hlt _ ih =>
    refine ⟨?_, List.not_mem_cons_of_ne_of_not_mem (Ne.symm hlt) ih.2⟩
    rw [resolved_char hamp, ih.1]
    rfl
  | reference hr hshort _ ih =>
    obtain ⟨hentity, hsemi, hlt⟩ := hr.entity
    refine ⟨?_, ?_⟩
    · rw [resolved_reference hsemi hshort hentity, ih.1]
      rfl
    · simp only [List.mem_cons, List.mem_append, not_or]
      exact ⟨by decide, hlt, by decide, ih.2⟩

/-! ## Signs -/

theorem signs?_spelling {e s : List Char} (h : Spells e s) (post : List Char) :
    signs? (e ++ post) = (signs? post).map (textSigns s ++ ·) := by
  obtain ⟨hs, hlt⟩ := resolved_spelling h []
  have hsigns : signs? (e ++ []) = some (textSigns s) := by
    rw [signs?_text hlt (by simp), hs, signs?_nil]
    simp [Except.toOption]
  rw [List.append_nil] at hsigns
  exact signs?_append hsigns post

theorem cutAt?_sectionEnd {s : List Char} (h : Text.cutAt? sectionEnd s = none)
    (post : List Char) : Text.cutAt? sectionEnd (s ++ sectionEnd ++ post) = some (s, post) := by
  induction s with
  | nil => rfl
  | cons c s ih =>
    rw [Text.cutAt?] at h
    cases hafter : Text.after? sectionEnd (c :: s) with
    | some rest => rw [hafter] at h; cases h
    | none =>
      rw [hafter, Option.map_eq_none_iff] at h
      -- The mark cannot begin in the section and end behind it: its brackets differ.
      have hnone : Text.after? sectionEnd (c :: (s ++ sectionEnd ++ post)) = none := by
        cases s with
        | nil => simp [sectionEnd, Text.after?]
        | cons d s =>
          cases s with
          | nil => simp [sectionEnd, Text.after?]
          | cons f s => simpa [sectionEnd, Text.after?] using hafter
      rw [List.cons_append, List.cons_append, Text.cutAt?, hnone, ih h]
      rfl

/-- The signs of a section are those of its text as one event. -/
theorem signs?_section {s : List Char} (h : Text.cutAt? sectionEnd s = none) (post : List Char) :
    signs? (sectionStart ++ s ++ sectionEnd ++ post) =
      (signs? post).map ((Event.text (String.ofList s)).signs ++ ·) := by
  have hcut := cutAt?_sectionEnd h post
  have hdata (here : List Char) : ∃ hlt, characterData here (s ++ sectionEnd ++ post) =
      .ok (some (.text (String.ofList s)), ⟨post, hlt⟩) := by
    refine ⟨shorter_of_cutAt? hcut, ?_⟩
    unfold characterData
    split
    · rename_i hnone
      cases hcut.symm.trans hnone
    · rename_i hcut'
      cases hcut.symm.trans hcut'
      rfl
  obtain ⟨hlt, hdata⟩ := hdata (sectionStart ++ (s ++ sectionEnd ++ post))
  have hnext : ∃ hlt, next '<' (sectionStart.tail ++ (s ++ sectionEnd ++ post)) =
      .ok (some (.text (String.ofList s)), ⟨post, hlt⟩) := by
    refine ⟨by simp only [List.length_cons, List.length_append]; omega, ?_⟩
    unfold next
    rw [if_pos rfl]
    simp only [sectionStart, List.tail_cons, List.cons_append, List.nil_append] at hdata ⊢
    simp only [hdata]
  obtain ⟨_, hnext⟩ := hnext
  rw [List.append_assoc, List.append_assoc, ← List.append_assoc s]
  exact signs?_next hnext

theorem nonempty_textSigns (s : String) :
    nonempty (textSigns s.toList) = nonempty (Event.text s).signs := by
  by_cases hs : s = ""
  · rw [hs]
    rfl
  · have hne : s.toList ≠ [] := by simpa using hs
    rw [← Event.signs_ofList hne, String.ofList_toList]

/-! ## Texts -/

theorem pruneNodes_text (values : Context) (repeats : Repeats) (s : String) :
    pruneNodes values repeats (gapped s []) = .ok s := by
  by_cases hs : s = ""
  · rw [hs]
    rfl
  · rw [gapped_of_ne hs]
    show Except.ok (s ++ "") = _
    rw [String.append_empty]

theorem prune_text {e s : String} (he : Spells e.toList s.toList) (values : Context)
    (repeats : Repeats) : prune ("<q>" ++ e ++ "</q>") values repeats = .ok s := by
  have hopening : signs? "<q>".toList = some [.opening "q" []] := by decide +kernel
  have hclosing : signs? "</q>".toList = some [.closing "q"] := by decide +kernel
  have hsigns : signs? ("<q>" ++ e ++ "</q>").toList =
      some (.opening "q" [] :: (textSigns s.toList ++ [.closing "q"])) := by
    rw [String.toList_append, String.toList_append, List.append_assoc, signs?_append hopening,
      signs?_spelling he, hclosing]
    rfl
  have hstop : Derives (.children "q" .root) [.closing "q"] .nothing [] [] := .stop
  have hparse : parse ("<q>" ++ e ++ "</q>") = .ok (gapped s []) :=
    parse_iff_document.mpr ⟨_, hsigns, [], [], "q", [], _, rfl, hstop.characters s, rfl, rfl⟩
  rw [prune_of_parse hparse, pruneNodes_text]

/-- A text in the content of a template can be written with references, each of at most ten bytes, or as
a section of character data, if no end mark stands in it: the template prunes to the same SQL for all
values and repeats, or does not prune for either. As the only content of an element it prunes to
itself. -/
theorem prune_spelling {pre e s : String} (hpre : EndsInContent pre.toList)
    (he : Spells e.toList s.toList)
    (hs : ∀ before after, s.toList ≠ before ++ [']', ']', '>'] ++ after) (post : String)
    (values : Context) (repeats : Repeats) :
    (∀ sql, prune (pre ++ e ++ post) values repeats = .ok sql ↔
      prune (pre ++ "<![CDATA[" ++ s ++ "]]>" ++ post) values repeats = .ok sql) ∧
    prune ("<q>" ++ e ++ "</q>") values repeats = .ok s ∧
    prune ("<q>" ++ "<![CDATA[" ++ s ++ "]]>" ++ "</q>") values repeats = .ok s := by
  have hcut : Text.cutAt? sectionEnd s.toList = none := Text.cutAt?_eq_none.mpr hs
  have hsame (post : String) : (signs? (e ++ post).toList).map nonempty =
      (signs? ("<![CDATA[" ++ s ++ "]]>" ++ post).toList).map nonempty := by
    have hsource : ("<![CDATA[" ++ s ++ "]]>" ++ post).toList =
        sectionStart ++ s.toList ++ sectionEnd ++ post.toList := by
      simp [sectionStart, sectionEnd]
    rw [hsource, signs?_section hcut, String.ofList_toList, String.toList_append, signs?_spelling he,
      Option.map_map, Option.map_map]
    refine Option.map_congr fun ss _ => ?_
    show nonempty (_ ++ ss) = nonempty (_ ++ ss)
    rw [nonempty_append, nonempty_append, nonempty_textSigns]
  have hiff {pre : String} (hpre : EndsInContent pre.toList) (post sql : String) :
      prune (pre ++ e ++ post) values repeats = .ok sql ↔
        prune (pre ++ "<![CDATA[" ++ s ++ "]]>" ++ post) values repeats = .ok sql := by
    have hsection : pre ++ "<![CDATA[" ++ s ++ "]]>" ++ post =
        pre ++ ("<![CDATA[" ++ s ++ "]]>" ++ post) := by
      simp only [String.append_assoc]
    rw [String.append_assoc, hsection]
    exact ⟨prune_congr_signs hpre (hsame post), prune_congr_signs hpre (hsame post).symm⟩
  have hroot : EndsInContent "<q>".toList := fun _ _ => by decide +kernel
  have htext := prune_text he values repeats
  exact ⟨hiff hpre post, htext, (hiff hroot "</q>" s).mp htext⟩

/-- A word, decimal and hexadecimal digits with leading zeros and in either case, and characters that
stand for themselves, in a branch behind a text. -/
theorem prune_spelling_mixed :
    prune ("<q>a<if c='1'> b " ++ "&lt;&#038;&#X6a;&#x006A;>" ++ "</if></q>") ∅ ∅ =
      .ok "a b <&jj>" ∧
    prune ("<q>a<if c='1'> b " ++ "<![CDATA[" ++ "<&jj>" ++ "]]>" ++ "</if></q>") ∅ ∅ =
      .ok "a b <&jj>" := by
  have hpre : EndsInContent "<q>a<if c='1'> b ".toList := fun _ _ => by decide +kernel
  have hdecimal : Digits 10 "038".toList '&'.toNat :=
    ((Digits.one (d := 0) ⟨by decide, .inl rfl⟩).more (d := 3) ⟨by decide, .inl rfl⟩).more (d := 8)
      ⟨by decide, .inl rfl⟩
  have hsmall : Digits 16 "6a".toList 'j'.toNat :=
    (Digits.one (d := 6) ⟨by decide, .inl rfl⟩).more (d := 10) ⟨by decide, .inl rfl⟩
  have hlarge : Digits 16 "006A".toList 'j'.toNat :=
    (((Digits.one (d := 0) ⟨by decide, .inl rfl⟩).more (d := 0) ⟨by decide, .inl rfl⟩).more (d := 6)
      ⟨by decide, .inl rfl⟩).more (d := 10) ⟨by decide, .inr rfl⟩
  have hspells : Spells "&lt;&#038;&#X6a;&#x006A;>".toList "<&jj>".toList := by
    have hend : Spells ['>'] ['>'] := .plain (by decide) (by decide) .nil
    have hlargeEnd := Spells.reference (.hexadecimal (.inl rfl) hlarge) (by decide) hend
    have hsmallEnd := Spells.reference (.hexadecimal (.inr rfl) hsmall) (by decide) hlargeEnd
    have hdecimalEnd := Spells.reference (.decimal hdecimal) (by decide) hsmallEnd
    exact Spells.reference (r := ['l', 't']) (.word rfl) (by decide) hdecimalEnd
  have hspelling := prune_spelling hpre hspells (Text.cutAt?_eq_none.mp (by decide)) "</if></q>" ∅ ∅
  have hprune : prune ("<q>a<if c='1'> b " ++ "&lt;&#038;&#X6a;&#x006A;>" ++ "</if></q>") ∅ ∅ =
      .ok "a b <&jj>" := by decide +kernel
  exact ⟨hprune, (hspelling.1 _).mp hprune⟩

/-- A reference to a character whose number has so many leading zeros that it is longer than ten bytes is
not read, and the section with the character is. -/
theorem prune_long_reference :
    Digits 10 "0000000065".toList 'A'.toNat ∧ Text.byteLength "#0000000065".toList = 11 ∧
    prune ("<q>" ++ "&#0000000065;" ++ "</q>") ∅ ∅ = .error (.malformed 1 4 .openReference) ∧
    prune ("<q>" ++ "<![CDATA[A]]>" ++ "</q>") ∅ ∅ = .ok "A" := by
  have hzeros : Digits 10 "00000000".toList 0 := by
    have hzero : IsDigit 10 '0' 0 := ⟨by decide, .inl rfl⟩
    exact (((((((Digits.one hzero).more hzero).more hzero).more hzero).more hzero).more hzero).more
      hzero).more hzero
  have hdigits : Digits 10 "0000000065".toList 'A'.toNat :=
    (hzeros.more (d := 6) ⟨by decide, .inl rfl⟩).more (d := 5) ⟨by decide, .inl rfl⟩
  exact ⟨hdigits, by decide +kernel, by decide +kernel, by decide +kernel⟩

end SqlTemplate.Template
