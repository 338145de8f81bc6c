import SqlTemplate.Template.Writer
/-!
Reading the text of events back.

`Reads w ev rest` says that in front of `rest` the text `w` is read as the event `ev`. What is
proved:
  1. `resolved_escaped`: a text with references for its special characters resolves to the text.
  2. `attributes_text`: the attributes of a start tag are read one after the other, if their names
     are names and no two are the same.
  3. `reads_text`, `reads_start`, `reads_stop`: the text of each kind of event is read as the event.
  4. `events_write`: so is the text of a list of events, if no text in it is empty or follows a text.
Comments and instructions have no event, so the events of a text do not give the text.
-/

namespace SqlTemplate.Template

open Condition (isLetter run)

/-! ## References -/

theorem references_plain : references.all (fun (c, word) => decide (entity? word = some c) &&
    word.all isLetter && decide (Text.byteLength word ≤ 10)) = true := by
  decide

/-- The words of references name their characters, have letters only and are short. -/
theorem entityWord?_plain {c : Char} {word : List Char} (h : entityWord? c = some word) :
    entity? word = some c ∧ (∀ d ∈ word, isLetter d = true) ∧ Text.byteLength word ≤ 10 := by
  obtain ⟨before, after, hmem, _⟩ := List.lookup_eq_some_iff.mp h
  have hplain := List.all_eq_true.mp references_plain (c, word) (by rw [hmem]; simp)
  simp only [Bool.and_eq_true, decide_eq_true_eq, List.all_eq_true] at hplain
  obtain ⟨⟨hentity, hletters⟩, hshort⟩ := hplain
  exact ⟨hentity, hletters, hshort⟩

theorem reference?_word {word : List Char} (hw : ';' ∉ word) (hb : Text.byteLength word ≤ 10)
    (rest : List Char) : ∃ h, reference? (word ++ ';' :: rest) = some (word, ⟨rest, h⟩) := by
  have hcut := Text.cutAt?_singleton hw rest
  refine ⟨by simp only [List.length_append, List.length_cons]; omega, ?_⟩
  unfold reference?
  split
  · rename_i entity left h
    rw [hcut] at h
    cases h
    rw [if_pos hb]
  · rename_i h
    rw [hcut] at h
    cases h

theorem resolved_reference {word : List Char} {d : Char} (hw : ';' ∉ word)
    (hb : Text.byteLength word ≤ 10) (hd : entity? word = some d) (after rest : List Char) :
    resolved after ('&' :: (word ++ ';' :: rest)) = (resolved after rest).map (d :: ·) := by
  obtain ⟨h, href⟩ := reference?_word hw hb rest
  rw [resolved, if_pos rfl, href]
  simp only [hd]

theorem resolved_char {c : Char} (hc : c ≠ '&') (after rest : List Char) :
    resolved after (c :: rest) = (resolved after rest).map (c :: ·) := by
  rw [resolved, if_neg hc]

theorem isLetter_ne {c d : Char} (h : isLetter c = true) (hd : isLetter d = false) : c ≠ d := by
  rintro rfl
  rw [h] at hd
  cases hd

theorem escaped_cons (special : Char → Bool) (c : Char) (cs : List Char) :
    escaped special (c :: cs) = escapedChar special c ++ escaped special cs := rfl

theorem resolved_escapedChar {special : Char → Bool} (h : special '&' = true) (c : Char)
    (after rest : List Char) :
    resolved after (escapedChar special c ++ rest) = (resolved after rest).map (c :: ·) := by
  unfold escapedChar
  split
  · rename_i word hs hword
    obtain ⟨hentity, hletters, hshort⟩ := entityWord?_plain hword
    have hsemi : ';' ∉ word := fun hm => isLetter_ne (hletters _ hm) (by decide) rfl
    have := resolved_reference hsemi hshort hentity after rest
    rw [← this]
    simp
  · rename_i hplain
    refine resolved_char ?_ after rest
    rintro rfl
    exact hplain _ h rfl

theorem resolved_escaped {special : Char → Bool} (h : special '&' = true) (after cs : List Char) :
    resolved after (escaped special cs) = .ok cs := by
  induction cs with
  | nil => rw [escaped, List.flatMap_nil, resolved]
  | cons c cs ih => rw [escaped_cons, resolved_escapedChar h, ih]; rfl

theorem not_mem_escaped {special : Char → Bool} {x : Char} (hs : special x = true)
    (hw : (entityWord? x).isSome = true) (hl : isLetter x = false) (hne : x ≠ '&' ∧ x ≠ ';')
    (cs : List Char) : x ∉ escaped special cs := by
  intro hm
  obtain ⟨c, _, hc⟩ := List.mem_flatMap.mp hm
  unfold escapedChar at hc
  split at hc
  · rename_i word _ hword
    obtain ⟨_, hletters, _⟩ := entityWord?_plain hword
    simp only [List.cons_append, List.mem_cons, List.mem_append, List.not_mem_nil, or_false] at hc
    rcases hc with rfl | hc | rfl
    · exact hne.1 rfl
    · exact isLetter_ne (hletters x hc) hl rfl
    · exact hne.2 rfl
  · rename_i hplain
    obtain ⟨word, hword⟩ := Option.isSome_iff_exists.mp hw
    rw [List.mem_singleton] at hc
    subst hc
    exact hplain word hs hword

/-! ## Names and attributes -/

/-- What may follow a name: nothing that goes on with it. -/
def EndsName (rest : List Char) : Prop := ∀ c ∈ rest.head?, isTagChar c = false

theorem name_append {n : List Char} (hn : isTagName n = true) (rest : List Char)
    (hrest : EndsName rest) :
    ∃ h, name (n ++ rest) = .ok (String.ofList n, ⟨rest, h⟩) := by
  cases n with
  | nil => cases hn
  | cons c cs =>
    rw [isTagName, Bool.and_eq_true] at hn
    obtain ⟨hc, hcs⟩ := hn
    have hstart : (isLetter c || decide (c = '_')) = true := by simpa using hc
    refine ⟨by simp only [List.cons_append, List.length_cons, List.length_append]; omega, ?_⟩
    have hrun : Text.LongestRun isTagChar cs rest := ⟨hcs, hrest⟩
    simp only [List.cons_append, name, run, if_pos hstart, hrun.takeWhile_append,
      hrun.dropWhile_append]

theorem isTagName_head {n : List Char} (hn : isTagName n = true) :
    ∃ c cs, n = c :: cs ∧ (isLetter c = true ∨ c = '_') := by
  cases n with
  | nil => cases hn
  | cons c cs =>
    simp only [isTagName, Bool.and_eq_true, Bool.or_eq_true, beq_iff_eq] at hn
    exact ⟨c, cs, rfl, hn.1⟩

/-- A first character of a name is none that marks something else, and not white space. -/
theorem head_ne {c d : Char} (hc : isLetter c = true ∨ c = '_') (hd : isLetter d = false)
    (hu : d ≠ '_') : c ≠ d := by
  rintro rfl
  rcases hc with hc | hc
  · rw [hc] at hd; cases hd
  · exact hu hc

theorem isBlank_head {c : Char} (hc : isLetter c = true ∨ c = '_') : Text.isBlank c = false := by
  refine Text.isBlank_of_visible (Condition.visible_of_isNameChar ?_)
  rcases hc with hc | rfl
  · rw [Condition.isNameChar, hc]; rfl
  · decide

theorem skip_of_not_blank {c : Char} (hc : Text.isBlank c = false) (cs : List Char) :
    (skip (c :: cs)).1 = c :: cs := by
  simp [skip, Text.trimStart, hc]

theorem skip_space {c : Char} (hc : Text.isBlank c = false) (cs : List Char) :
    (skip (' ' :: c :: cs)).1 = c :: cs := by
  have hc' : ¬ Text.isBlank c = true := by rw [hc]; decide
  simp only [skip, Text.trimStart]
  rw [List.dropWhile_cons_of_pos Text.isBlank_space, List.dropWhile_cons_of_neg hc']

theorem quote_plain (q : Quote) : Text.isBlank q.char = false ∧ isTagChar q.char = false ∧
    isLetter q.char = false ∧ q.char ≠ '&' ∧ q.char ≠ ';' ∧ q.char ≠ '<' ∧
    (entityWord? q.char).isSome = true := by
  cases q <;> decide

-- What a reader is given is often the result of another; it is described by an equation, as the
-- types of the readers mention it.
theorem expect_of_eq {c : Char} {cs rest : List Char} (hcs : cs = c :: rest) (tag : List Char)
    (fault : Fault) : ∃ h, expect c tag fault cs = .ok ⟨rest, h⟩ := by
  subst hcs
  exact ⟨Nat.lt_succ_self _, by simp only [expect, if_pos]⟩

def valueText (q : Quote) (value : String) (rest : List Char) : List Char :=
  q.char :: (escaped (specialInValue q) value.toList ++ q.char :: rest)

theorem attributeValue_text {q : Quote} {value : String} {cs rest : List Char}
    (hcs : cs = valueText q value rest) (key : List Char) :
    ∃ h, attributeValue key cs = .ok (value, ⟨rest, h⟩) := by
  subst hcs
  unfold valueText
  obtain ⟨_, _, hl, hamp, hsemi, _, hw⟩ := quote_plain q
  have hq : q.char ∉ escaped (specialInValue q) value.toList :=
    not_mem_escaped (by simp [specialInValue]) hw hl ⟨hamp, hsemi⟩ _
  have hlt : '<' ∉ escaped (specialInValue q) value.toList :=
    not_mem_escaped (by simp [specialInValue, specialInText]) rfl (by decide) (by decide) _
  have hres : resolved (q.char :: rest) (escaped (specialInValue q) value.toList) =
      .ok value.toList :=
    resolved_escaped (by simp [specialInValue, specialInText]) _ _
  have hcut := Text.cutAt?_singleton hq rest
  have hquote : (q.char = '\x27' || q.char = '\x22') = true := by cases q <;> rfl
  refine ⟨by simp only [List.length_cons, List.length_append]; omega, ?_⟩
  simp only [attributeValue]
  rw [if_pos hquote]
  split
  · rename_i h
    rw [hcut] at h
    cases h
  · rename_i raw left h
    rw [hcut] at h
    cases h
    rw [if_neg (by simpa using hlt)]
    simp only [hres, String.ofList_toList]

theorem attributeText_append (q : Quote) (a : String × String) (rest : List Char) :
    attributeText q a ++ rest = ' ' :: (a.1.toList ++ '=' :: valueText q a.2 rest) := by
  simp [attributeText, valueText]

theorem keyAndValue_text {q : Quote} {a : String × String} {cs rest : List Char}
    (ha : isTagName a.1.toList = true) (hcs : cs = a.1.toList ++ '=' :: valueText q a.2 rest)
    (tag : List Char) : ∃ h, keyAndValue tag cs = .ok (a, ⟨rest, h⟩) := by
  subst hcs
  obtain ⟨_, hname⟩ := name_append ha ('=' :: valueText q a.2 rest) (by rintro c ⟨⟩; decide)
  obtain ⟨_, hexpect⟩ := expect_of_eq
    (skip_of_not_blank (c := '=') (by decide) (valueText q a.2 rest)) tag .noEquals
  have hquote : (skip (valueText q a.2 rest)).1 = valueText q a.2 rest :=
    skip_of_not_blank (quote_plain q).1 _
  obtain ⟨_, hvalue⟩ := attributeValue_text hquote (a.1.toList ++ '=' :: valueText q a.2 rest)
  refine ⟨by simp only [valueText, List.length_append, List.length_cons]; omega, ?_⟩
  simp only [keyAndValue, hname, hexpect, hvalue, String.ofList_toList]

def tagEnd (empty : Bool) : List Char := if empty then ['/', '>'] else ['>']

section
variable {cs rest : List Char} {tag : List Char} {read : List (String × String)}

theorem attributes_of_tagEnd {empty : Bool} (h : (skip cs).1 = tagEnd empty ++ rest) :
    ∃ hlt, attributes tag read cs = .ok (read, empty, ⟨rest, hlt⟩) := by
  have hle := (skip cs).2
  have hpos : 0 < (tagEnd empty).length := by cases empty <;> decide
  refine ⟨by rw [h, List.length_append] at hle; omega, ?_⟩
  rw [attributes]
  split
  · rename_i h'; rw [h] at h'; cases empty <;> cases h'
  · rename_i h'; rw [h] at h'; cases empty <;> cases h'; rfl
  · rename_i h'; rw [h] at h'; cases empty <;> cases h'; rfl
  · rename_i hslash hangle h'
    rw [h] at h'
    cases empty <;> cases h'
    · exact (hangle rfl).elim
    · exact (hslash _ rfl rfl).elim

theorem attributes_of_keyAndValue {c : Char} {r : List Char} {a : String × String}
    {hlt : rest.length < (c :: r).length} (hskip : (skip cs).1 = c :: r)
    (hc : isLetter c = true ∨ c = '_') (hspace : (c :: r).length ≠ cs.length)
    (hread : keyAndValue tag (c :: r) = .ok (a, ⟨rest, hlt⟩)) (hfresh : read.any (·.1 == a.1) = false)
    {all : List (String × String)} {empty : Bool} {left : List Char} {hleft : left.length < rest.length}
    (hmore : attributes tag (read ++ [a]) rest = .ok (all, empty, ⟨left, hleft⟩)) :
    ∃ hlt', attributes tag read cs = .ok (all, empty, ⟨left, hlt'⟩) := by
  have hle := (skip cs).2
  refine ⟨by rw [hskip] at hle; omega, ?_⟩
  rw [attributes]
  split
  · rename_i h; rw [hskip] at h; cases h
  · rename_i h
    rw [hskip] at h
    exact absurd (List.cons.inj h).1 (head_ne hc (by decide) (by decide))
  · rename_i h
    rw [hskip] at h
    exact absurd (List.cons.inj h).1 (head_ne hc (by decide) (by decide))
  · rename_i h
    rw [hskip] at h
    cases h
    rw [if_neg hspace]
    simp only [hread, hmore]
    rw [if_neg (by rw [hfresh]; decide)]

end

theorem attributes_tagEnd (tag : List Char) (read : List (String × String)) (empty : Bool)
    (rest : List Char) :
    ∃ h, attributes tag read (tagEnd empty ++ rest) = .ok (read, empty, ⟨rest, h⟩) :=
  attributes_of_tagEnd (by cases empty <;> exact skip_of_not_blank (by decide) _)

theorem attributes_attributeText {q : Quote} {a : String × String} (ha : isTagName a.1.toList = true)
    {read : List (String × String)} (hread : a.1 ∉ read.map (·.1)) (tag rest : List Char)
    {result : List (String × String) × Bool × Shorter rest}
    (hrest : attributes tag (read ++ [a]) rest = .ok result) :
    ∃ h, attributes tag read (attributeText q a ++ rest) =
      .ok (result.1, result.2.1, ⟨result.2.2.1, h⟩) := by
  rw [attributeText_append]
  obtain ⟨all, empty, left, hleft⟩ := result
  obtain ⟨c, cs, hkey, hc⟩ := isTagName_head ha
  have hskip : (skip (' ' :: (a.1.toList ++ '=' :: valueText q a.2 rest))).1 =
      a.1.toList ++ '=' :: valueText q a.2 rest := by
    rw [hkey]
    exact skip_space (isBlank_head hc) _
  have hattribute : ∃ hlt, keyAndValue tag (a.1.toList ++ '=' :: valueText q a.2 rest) =
      .ok (a, ⟨rest, hlt⟩) := keyAndValue_text ha rfl tag
  have hfresh : ¬ read.any (·.1 == a.1) = true := by simpa using hread
  rw [hkey, List.cons_append] at hattribute hskip ⊢
  obtain ⟨hlt, hattribute⟩ := hattribute
  exact attributes_of_keyAndValue hskip hc (by simp) hattribute (Bool.eq_false_iff.mpr hfresh) hrest

/-- Attributes that can stand in one tag. -/
structure Named (attrs : List (String × String)) : Prop where
  names : ∀ a ∈ attrs, isTagName a.1.toList = true
  distinct : (attrs.map (·.1)).Nodup

def attributesText (q : Quote) (attrs : List (String × String)) (empty : Bool) (rest : List Char) :
    List Char :=
  attrs.flatMap (attributeText q) ++ (tagEnd empty ++ rest)

theorem attributes_text {q : Quote} {empty : Bool} {cs rest : List Char}
    {attrs read : List (String × String)} (hn : ∀ a ∈ attrs, isTagName a.1.toList = true)
    (hd : ((read ++ attrs).map (·.1)).Nodup) (hcs : cs = attributesText q attrs empty rest)
    (tag : List Char) :
    ∃ h, attributes tag read cs = .ok (read ++ attrs, empty, ⟨rest, h⟩) := by
  induction attrs generalizing read cs with
  | nil =>
    have hcs' : cs = tagEnd empty ++ rest := hcs
    subst hcs'
    rw [List.append_nil]
    exact attributes_tagEnd tag read empty rest
  | cons a attrs ih =>
    have hcs' : cs = attributeText q a ++ attributesText q attrs empty rest := by
      rw [hcs, attributesText, List.flatMap_cons, List.append_assoc, attributesText]
    subst hcs'
    have hread : a.1 ∉ read.map (·.1) := by
      rw [List.map_append, List.map_cons, List.nodup_append] at hd
      exact fun hm => hd.2.2 _ hm _ List.mem_cons_self rfl
    have hall : read ++ a :: attrs = read ++ [a] ++ attrs := by
      rw [List.append_assoc, List.singleton_append]
    rw [hall] at hd ⊢
    obtain ⟨_, hmore⟩ := ih (fun b hb => hn b (List.mem_cons_of_mem a hb)) hd rfl
    exact attributes_attributeText (hn a List.mem_cons_self) hread tag _ hmore

/-! ## Events -/

/-- In front of `rest`, the text `w` is read as the event `ev`. -/
def Reads (w : List Char) (ev : Event) (rest : List Char) : Prop :=
  ∃ c cs h, w ++ rest = c :: cs ∧ next c cs = .ok (some ev, ⟨rest, h⟩)

theorem events_of_reads {w rest : List Char} {ev : Event} (h : Reads w ev rest) {ls : List Located}
    (hrest : events rest = .ok ls) : events (w ++ rest) = .ok (⟨ev, w ++ rest⟩ :: ls) := by
  obtain ⟨c, cs, _, hw, hnext⟩ := h
  rw [hw, events, hnext]
  simp only [hrest]

theorem reads_text (q : Quote) {s : String} (hs : s ≠ "") {rest : List Char}
    (hrest : ∀ c ∈ rest.head?, c = '<') : Reads ((Event.text s).write q) (.text s) rest := by
  have hlt : '<' ∉ escaped specialInText s.toList :=
    not_mem_escaped (by decide) (by decide) (by decide) (by decide) _
  have hres : resolved rest (escaped specialInText s.toList) = .ok s.toList :=
    resolved_escaped (by decide) rest s.toList
  show Reads (escaped specialInText s.toList) _ _
  cases hw : escaped specialInText s.toList with
  | nil =>
    -- The empty text is written by no text but itself.
    rw [hw, resolved] at hres
    cases hres' : s.toList with
    | nil => exact absurd (by rw [← String.ofList_toList (s := s), hres']) hs
    | cons => rw [hres'] at hres; cases hres
  | cons c cs =>
    rw [hw] at hlt hres
    obtain ⟨hc, hcs⟩ := List.ne_and_not_mem_of_not_mem_cons hlt
    have hall : cs.all (· != '<') = true := by
      rw [List.all_eq_true]
      intro d hd
      exact bne_iff_ne.mpr (fun h => hcs (h ▸ hd))
    have hstop : ∀ d ∈ rest.head?, (d != '<') = false := by
      intro d hd; rw [hrest d hd]; rfl
    have hrun : Text.LongestRun (· != '<') cs rest := ⟨hall, hstop⟩
    refine ⟨c, cs ++ rest, by simp only [List.length_cons, List.length_append]; omega, rfl, ?_⟩
    unfold next
    rw [if_neg (Ne.symm hc)]
    simp only [content, run, hrun.takeWhile_append, hrun.dropWhile_append, hres,
      String.ofList_toList]

theorem next_startTag {c : Char} (hc : isLetter c = true ∨ c = '_') {cs rest : List Char}
    (hcs : cs.head? = some c) {ev : Event} {h : rest.length < cs.length}
    (hstart : startTag ('<' :: cs) cs = .ok (some ev, ⟨rest, h⟩)) :
    next '<' cs = .ok (some ev, ⟨rest, Nat.lt_succ_of_lt h⟩) := by
  unfold next
  rw [if_pos rfl]
  -- Comments, character data, instructions and end tags begin with other characters.
  split
  · cases hcs; exact absurd rfl (head_ne hc (by decide) (by decide))
  · cases hcs; exact absurd rfl (head_ne hc (by decide) (by decide))
  · cases hcs; exact absurd rfl (head_ne hc (by decide) (by decide))
  · cases hcs; exact absurd rfl (head_ne hc (by decide) (by decide))
  · simp only [hstart]

theorem reads_start (q : Quote) {n : String} (hn : isTagName n.toList = true)
    {attrs : List (String × String)} (hattrs : Named attrs) (empty : Bool) (rest : List Char) :
    Reads ((Event.start n attrs empty).write q) (.start n attrs empty) rest := by
  have hw : (Event.start n attrs empty).write q ++ rest =
      '<' :: (n.toList ++ attributesText q attrs empty rest) := by
    simp [Event.write, attributesText, tagEnd]
  have hends : EndsName (attributesText q attrs empty rest) := by
    cases attrs with
    | nil => cases empty <;> (rintro c ⟨⟩; decide)
    | cons => rintro c ⟨⟩; decide
  obtain ⟨h₁, hname⟩ := name_append hn _ hends
  have hdistinct : (([] ++ attrs).map Prod.fst).Nodup := hattrs.distinct
  obtain ⟨h₂, hattributes⟩ := attributes_text hattrs.names hdistinct rfl
    ('<' :: (n.toList ++ attributesText q attrs empty rest))
  obtain ⟨c, cs, hcs, hc⟩ := isTagName_head hn
  refine ⟨'<', _, _, hw, next_startTag hc (by rw [hcs]; rfl) (h := Nat.lt_trans h₂ h₁) ?_⟩
  simp only [startTag, hname, hattributes, List.nil_append, String.ofList_toList]

theorem reads_stop (q : Quote) {n : String} (hn : isTagName n.toList = true) (rest : List Char) :
    Reads ((Event.stop n).write q) (.stop n) rest := by
  have hw : (Event.stop n).write q ++ rest = '<' :: '/' :: (n.toList ++ '>' :: rest) := by
    simp [Event.write]
  obtain ⟨h₁, hname⟩ := name_append hn ('>' :: rest) (by rintro c ⟨⟩; decide)
  obtain ⟨_, hexpect⟩ := expect_of_eq (skip_of_not_blank (c := '>') (by decide) rest)
    ('<' :: '/' :: (n.toList ++ '>' :: rest)) .openEndTag
  refine ⟨'<', _, by simp only [List.length_cons, List.length_append]; omega, hw, ?_⟩
  unfold next
  rw [if_pos rfl]
  simp only [endTag, hname, hexpect, String.ofList_toList]

/-! ## Lists of events -/

def Event.isText : Event → Bool
  | .text _ => true
  | _ => false

def Event.Writable : Event → Prop
  | .text s => s ≠ ""
  | .start n attrs _ => isTagName n.toList = true ∧ Named attrs
  | .stop n => isTagName n.toList = true

def opensText (es : List Event) : Bool := es.head?.any Event.isText

/-- Events that can be written so that they are read back: no text follows a text. -/
def Writable : List Event → Prop
  | [] => True
  | e :: es => e.Writable ∧ (e.isText = true → opensText es = false) ∧ Writable es

theorem write_head (q : Quote) {es : List Event} (h : opensText es = false) :
    ∀ c ∈ (es.flatMap (Event.write q)).head?, c = '<' := by
  intro c hc
  cases es with
  | nil => cases hc
  | cons e es =>
    cases e with
    | text s => cases h
    | start n attrs empty => cases hc; rfl
    | stop n => cases hc; rfl

theorem reads_write (q : Quote) {e : Event} {es : List Event} (he : e.Writable)
    (h : e.isText = true → opensText es = false) :
    Reads (e.write q) e (es.flatMap (Event.write q)) := by
  cases e with
  | text s => exact reads_text q he (write_head q (h rfl))
  | start n attrs empty => exact reads_start q he.1 he.2 empty _
  | stop n => exact reads_stop q he _

theorem events_write (q : Quote) {es : List Event} (h : Writable es) :
    ∃ ls, events (es.flatMap (Event.write q)) = .ok ls ∧ ls.map (·.event) = es := by
  induction es with
  | nil => exact ⟨[], by rw [List.flatMap_nil, events], rfl⟩
  | cons e es ih =>
    obtain ⟨he, htext, hes⟩ := h
    obtain ⟨ls, hls, hmap⟩ := ih hes
    rw [List.flatMap_cons]
    exact ⟨_, events_of_reads (reads_write q he htext) hls, by rw [List.map_cons, hmap]⟩

end SqlTemplate.Template
