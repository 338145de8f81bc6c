import SqlTemplate.Command
import SqlTemplate.Proofs.Prune.Selection
/-!
Whether a text is taken for a template, and whether it can be read as one.

A text is taken for a template by its first two characters after white space, while the reader also
resolves references and reads comments and instructions in front of the root. `Opening` lists how a
text that is read as a template begins after its white space. What is proved:
  1. `next_markup`: behind an angle bracket the reader accepts only an end tag or a character that
     opens other markup, and an end tag in front of the root is refused.
  2. `resolved_blank`: a text that resolves to white space is white space up to its first reference.
  3. `opening_of_read`: so what is read as a template begins with such markup, or with a reference.
  4. `detected_of_parse`: it is taken for a template in the first case, unless its first name begins
     with an underscore, and a command then sends what it prunes to. In the second case the command
     sends the text as it stands.
-/

namespace SqlTemplate.Template

open Condition (isLetter run)

/-- A character that opens markup other than an end tag, behind an angle bracket. -/
def OpensMarkup (c : Char) : Prop := (isLetter c = true ∨ c = '_') ∨ c = '?' ∨ c = '!'

/-- How a text that is read as a template begins after its white space. -/
inductive Opening : List Char → Prop where
  | markup {c : Char} (hc : OpensMarkup c) (rest : List Char) : Opening ('<' :: c :: rest)
  | reference (rest : List Char) : Opening ('&' :: rest)

/-! ## Markup -/

theorem head_of_name {cs : List Char} {result : String × Shorter cs} (h : name cs = .ok result) :
    ∃ c rest, cs = c :: rest ∧ (isLetter c = true ∨ c = '_') := by
  cases cs with
  | nil => cases h
  | cons c rest =>
    refine ⟨c, rest, rfl, ?_⟩
    by_cases hc : (isLetter c || c = '_') = true
    · simpa using hc
    · rw [name, if_neg hc] at h
      cases h

theorem head_of_startTag {tag cs : List Char} {result : Option Event × Shorter cs}
    (h : startTag tag cs = .ok result) :
    ∃ c rest, cs = c :: rest ∧ (isLetter c = true ∨ c = '_') := by
  unfold startTag at h
  split at h
  · cases h
  · next hname => exact head_of_name hname

theorem event_of_endTag {tag cs : List Char} {ev : Option Event} {rest : Shorter cs}
    (h : endTag tag cs = .ok (ev, rest)) : ∃ n, ev = some (.stop n) := by
  unfold endTag at h
  split at h
  · cases h
  · split at h
    · cases h
    · cases h
      exact ⟨_, rfl⟩

/-- What an angle bracket begins is an end tag, or its second character opens other markup. -/
theorem next_markup {cs : List Char} {ev : Option Event} {rest : Shorter ('<' :: cs)}
    (h : next '<' cs = .ok (ev, rest)) :
    (∃ n, ev = some (.stop n)) ∨ ∃ c r, cs = c :: r ∧ OpensMarkup c := by
  unfold next at h
  rw [if_pos rfl] at h
  split at h
  · exact .inr ⟨'!', _, rfl, .inr (.inr rfl)⟩
  · exact .inr ⟨'!', _, rfl, .inr (.inr rfl)⟩
  · exact .inr ⟨'?', _, rfl, .inr (.inl rfl)⟩
  · split at h
    · cases h
    · next htag =>
      cases h
      exact .inl (event_of_endTag htag)
  · split at h
    · cases h
    · next htag =>
      obtain ⟨c, r, hcs, hc⟩ := head_of_startTag htag
      exact .inr ⟨c, r, hcs, .inl hc⟩

/-- A template that begins with an angle bracket begins with markup that is no end tag. -/
theorem markup_of_read {cs : List Char} {nodes : List Node} (h : read ('<' :: cs) = .ok nodes) :
    ∃ c rest, cs = c :: rest ∧ OpensMarkup c := by
  rw [read, events] at h
  cases hnext : next '<' cs with
  | error e => rw [hnext] at h; cases h
  | ok result =>
    obtain ⟨ev, rest⟩ := result
    obtain ⟨n, rfl⟩ | hopens := next_markup hnext
    · -- The end tag is the first event, and the root is no end tag.
      exfalso
      rw [hnext] at h
      cases hrest : events rest.1 with
      | error e => simp only [hrest] at h; cases h
      | ok es => simp only [hrest] at h; cases h
    · exact hopens

/-! ## White space in front of the root -/

theorem resolved_blank {after w s : List Char} (h : resolved after w = .ok s)
    (hs : Text.allBlank s = true) :
    Text.trimStart w = [] ∨ ∃ rest, Text.trimStart w = '&' :: rest := by
  induction w generalizing s with
  | nil => exact .inl rfl
  | cons c cs ih =>
    by_cases hc : c = '&'
    · subst hc
      exact .inr ⟨cs, List.dropWhile_cons_of_neg (by decide)⟩
    · rw [resolved, if_neg hc] at h
      cases hrest : resolved after cs with
      | error e => rw [hrest] at h; cases h
      | ok t =>
        rw [hrest] at h
        cases h
        obtain ⟨hblank, ht⟩ : Text.isBlank c = true ∧ Text.allBlank t = true := by
          simpa [Text.allBlank] using hs
        have htrim : Text.trimStart (c :: cs) = Text.trimStart cs :=
          List.dropWhile_cons_of_pos hblank
        rw [htrim]
        exact ih hrest ht

theorem next_text {c : Char} (hc : c ≠ '<') {cs : List Char} {ev : Option Event}
    {rest : Shorter (c :: cs)} (h : next c cs = .ok (ev, rest)) :
    ∃ w s, c :: cs = w ++ rest.1 ∧ resolved rest.1 w = .ok s ∧ ev = some (.text (String.ofList s)) ∧
      ∀ d ∈ rest.1.head?, d = '<' := by
  unfold next at h
  rw [if_neg hc] at h
  simp only [content, run] at h
  split at h
  · cases h
  · next s hs =>
    cases h
    refine ⟨c :: cs.takeWhile (· != '<'), s, ?_, hs, rfl, ?_⟩
    · rw [List.cons_append, List.takeWhile_append_dropWhile]
    · intro d hd
      have hstop := (Text.longestRun_takeWhile (· != '<') cs).stops d hd
      simpa using hstop

theorem ofEvents_text {s : String} {here : List Char} {es : List Located} {nodes : List Node}
    (h : ofEvents (⟨.text s, here⟩ :: es) = .ok nodes) :
    Text.allBlank s.toList = true ∧ ofEvents es = .ok nodes := by
  by_cases hs : Text.allBlank s.toList = true
  · refine ⟨hs, ?_⟩
    have hskip : skipBlank (⟨.text s, here⟩ :: es) = skipBlank es := if_pos hs
    rw [ofEvents, hskip] at h
    exact h
  · have hskip : skipBlank (⟨.text s, here⟩ :: es) = .error ⟨.textOutside, here⟩ := if_neg hs
    rw [ofEvents, hskip] at h
    cases h

/-- A template that begins with a text begins with white space, and what follows is a template. -/
theorem text_of_read {c : Char} (hc : c ≠ '<') {cs : List Char} {nodes : List Node}
    (h : read (c :: cs) = .ok nodes) :
    ∃ w s rest, c :: cs = w ++ rest ∧ resolved rest w = .ok s ∧ Text.allBlank s = true ∧
      (∀ d ∈ rest.head?, d = '<') ∧ read rest = .ok nodes := by
  rw [read, events] at h
  cases hnext : next c cs with
  | error e => rw [hnext] at h; cases h
  | ok result =>
    obtain ⟨ev, rest⟩ := result
    obtain ⟨w, s, happend, hs, rfl, hstop⟩ := next_text hc hnext
    rw [hnext] at h
    cases hrest : events rest.1 with
    | error e => simp only [hrest] at h; cases h
    | ok es =>
      simp only [hrest] at h
      obtain ⟨hblank, hes⟩ := ofEvents_text h
      rw [String.toList_ofList] at hblank
      refine ⟨w, s, rest.1, happend, hs, hblank, hstop, ?_⟩
      rw [read, hrest]
      exact hes

/-! ## The beginning of a template -/

theorem not_read_nil {nodes : List Node} : read [] ≠ .ok nodes := by
  intro h
  rw [read, events] at h
  cases h

/-- What is read as a template begins, after its white space, with markup that is no end tag or with
a reference. -/
theorem opening_of_read {cs : List Char} {nodes : List Node} (h : read cs = .ok nodes) :
    Opening (Text.trimStart cs) := by
  have bracket {r : List Char} (hr : read ('<' :: r) = .ok nodes) :
      Opening (Text.trimStart ('<' :: r)) := by
    obtain ⟨c, rest, rfl, hc⟩ := markup_of_read hr
    exact .markup hc rest
  cases cs with
  | nil => exact absurd h not_read_nil
  | cons c cs =>
    by_cases hc : c = '<'
    · subst hc
      exact bracket h
    · obtain ⟨w, s, rest, happend, hs, hblank, hstop, hread⟩ := text_of_read hc h
      have htrim : Text.trimStart (w ++ rest) = if (Text.trimStart w).isEmpty then
          Text.trimStart rest else Text.trimStart w ++ rest := List.dropWhile_append
      rw [happend, htrim]
      obtain hw | ⟨r, hw⟩ := resolved_blank hs hblank
      · -- Nothing but white space: the template begins where the text ends.
        rw [hw, List.isEmpty_nil, if_pos rfl]
        cases rest with
        | nil => exact absurd hread not_read_nil
        | cons d r =>
          obtain rfl := hstop d rfl
          exact bracket hread
      · rw [hw, if_neg (by simp)]
        exact .reference (r ++ rest)

theorem isTemplate_of_markup {cs rest : List Char} {c : Char} (hc : OpensMarkup c)
    (h : Text.trimStart cs = '<' :: c :: rest) : isTemplate cs = true ∨ c = '_' := by
  unfold isTemplate
  rw [h]
  obtain (hletter | rfl) | rfl | rfl := hc
  · exact .inl (by simp only [hletter, Bool.true_or])
  · exact .inr rfl
  · exact .inl rfl
  · exact .inl rfl

/-- A text that can be parsed, and whose first characters after white space are not an angle bracket
and an underscore, is taken for a template if the first of them is an angle bracket: then a command
sends what the template prunes to. Otherwise the text writes the white space in front of its root as
a reference, and a command sends it as it stands. -/
theorem detected_of_parse {source : String} {nodes : List Node} (hparse : parse source = .ok nodes)
    (hname : Text.startsWith ['<', '_'] (Text.trimStart source.toList) = false)
    (c : Command) (hc : c.text = source) :
    ((Text.trimStart source.toList).head? = some '<' ∧ isTemplate source.toList = true ∧
      c.render = prune source c.context c.repeats) ∨
    ((Text.trimStart source.toList).head? = some '&' ∧ isTemplate source.toList = false ∧
      c.render = .ok source) := by
  subst hc
  have hread : read c.text.toList = .ok nodes := by
    unfold parse at hparse
    split at hparse
    · next hok =>
      cases hparse
      exact hok
    · cases hparse
  have hopening := opening_of_read hread
  generalize hcs : Text.trimStart c.text.toList = cs at hopening hname
  cases hopening with
  | @markup d hd rest =>
    have htemplate : isTemplate c.text.toList = true := by
      obtain htemplate | rfl := isTemplate_of_markup hd hcs
      · exact htemplate
      · cases hname
    exact .inl ⟨rfl, htemplate, if_pos htemplate⟩
  | reference rest =>
    have htemplate : isTemplate c.text.toList = false := by
      unfold isTemplate
      rw [hcs]
      rfl
    exact .inr ⟨rfl, htemplate, if_neg (by rw [htemplate]; decide)⟩

theorem detected_of_parse_prolog :
    ∃ nodes, parse "\n <!-- all --> <?sql?><q>select 1</q>" = .ok nodes ∧
      isTemplate "\n <!-- all --> <?sql?><q>select 1</q>".toList = true ∧
      (Command.ofText "\n <!-- all --> <?sql?><q>select 1</q>").render =
        prune "\n <!-- all --> <?sql?><q>select 1</q>" ∅ ∅ := by
  have hmap : (parse "\n <!-- all --> <?sql?><q>select 1</q>").map (fun _ => ()) = .ok () := by
    decide +kernel
  obtain ⟨nodes, hparse, _⟩ := exists_nodes_of_map hmap
  obtain ⟨_, htemplate, hrender⟩ | ⟨hhead, _⟩ :=
    detected_of_parse hparse (by decide +kernel) (Command.ofText _) rfl
  · exact ⟨nodes, hparse, htemplate, hrender⟩
  · exact absurd hhead (by decide +kernel)

/-- A template whose first white space is a reference, and a template whose root has a name that
begins with an underscore, are not taken for templates. -/
theorem undetected_templates :
    (prune "&#32;<q>select 1</q>" ∅ ∅ = .ok "select 1" ∧
      isTemplate "&#32;<q>select 1</q>".toList = false ∧
      (Command.ofText "&#32;<q>select 1</q>").render = .ok "&#32;<q>select 1</q>") ∧
    (prune "<_q>select 1</_q>" ∅ ∅ = .ok "select 1" ∧
      isTemplate "<_q>select 1</_q>".toList = false ∧
      (Command.ofText "<_q>select 1</_q>").render = .ok "<_q>select 1</_q>") := by
  decide +kernel

end SqlTemplate.Template
