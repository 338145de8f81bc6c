import SqlTemplate.Proofs.Template.Reading
/-!
Comments in a template.

A comment is looked for its end mark from its own first character on, so that the hyphens that open it
can be those that close it. What is proved:
  1. `cutAt?_commentEnd`: the end mark of a body that is neither divided nor ended by hyphens is the one
     behind it.
  2. `signs?_comment`: so a comment has no signs, unless its body begins with the end of an end mark.
     Then the comment ends there, and the rest of the body is text.
  3. `parse_comment`: a template is read as it is without the comment, wherever in the content the
     comment stands; `comment_ends_early` is a comment that ends at its first bracket.
-/

namespace SqlTemplate.Template

def commentStart : List Char := ['<', '!', '-', '-']

def commentEnd : List Char := ['-', '-', '>']

/-- What may stand in a comment: no hyphen behind another one, and none at the end. -/
structure CommentBody (body : List Char) : Prop where
  apart : ∀ before after, body ≠ before ++ '-' :: '-' :: after
  ends : body.getLast? ≠ some '-'

/-- What is left of a comment when its opening characters are taken for a part of its end mark. -/
def leftOver : List Char → List Char
  | '>' :: body => body ++ commentEnd
  | '-' :: '>' :: body => body ++ commentEnd
  | _ => []

theorem CommentBody.tail {c : Char} {body : List Char} (h : CommentBody (c :: body)) :
    CommentBody body where
  apart before after hbody := h.apart (c :: before) after (by rw [hbody]; rfl)
  ends := by
    cases body with
    | nil => nofun
    | cons d body => exact h.ends

theorem commentBody_of_cutAt? {body : List Char} (hapart : Text.cutAt? ['-', '-'] body = none)
    (hends : body.getLast? ≠ some '-') : CommentBody body where
  apart before after := by simpa using Text.cutAt?_eq_none.mp hapart before after
  ends := hends

theorem CommentBody.after_hyphen {body : List Char} (h : CommentBody ('-' :: body)) :
    ∃ c rest, body = c :: rest ∧ c ≠ '-' := by
  cases body with
  | nil => exact absurd rfl h.ends
  | cons c rest =>
    refine ⟨c, rest, rfl, ?_⟩
    intro hc
    exact h.apart [] rest (by rw [hc]; rfl)

theorem cutAt?_commentEnd {body : List Char} (h : CommentBody body) (post : List Char) :
    Text.cutAt? commentEnd (body ++ commentEnd ++ post) = some (body, post) := by
  induction body with
  | nil => rfl
  | cons c body ih =>
    have hnone : Text.after? commentEnd (c :: body ++ commentEnd ++ post) = none := by
      by_cases hc : '-' = c
      · subst hc
        obtain ⟨d, rest, rfl, hd⟩ := h.after_hyphen
        simp [commentEnd, Text.after?, Ne.symm hd]
      · simp [commentEnd, Text.after?, hc]
    rw [List.cons_append, List.cons_append, Text.cutAt?]
    rw [List.cons_append, List.cons_append] at hnone
    rw [hnone, ih h.tail]
    rfl

/-- The end mark of a comment, looked for from the first character of the comment on. -/
theorem cutAt?_commentStart {body : List Char} (h : CommentBody body) (post : List Char) :
    ∃ before, Text.cutAt? commentEnd (commentStart ++ body ++ commentEnd ++ post) =
      some (before, leftOver body ++ post) := by
  -- The end mark is not found at the first two characters.
  have hskip (cs : List Char) : Text.cutAt? commentEnd (commentStart ++ cs) =
      (Text.cutAt? commentEnd ('-' :: '-' :: cs)).map fun p => ('<' :: '!' :: p.1, p.2) := by
    show Option.map _ (Option.map _ (Text.cutAt? commentEnd ('-' :: '-' :: cs))) = _
    rw [Option.map_map]
    rfl
  rw [List.append_assoc, List.append_assoc, hskip]
  unfold leftOver
  split
  · rename_i body
    refine ⟨['<', '!'], ?_⟩
    rw [List.append_assoc]
    rfl
  · rename_i body
    refine ⟨['<', '!', '-'], ?_⟩
    rw [List.append_assoc]
    rfl
  · rename_i hbracket harrow
    have hfirst : Text.after? commentEnd ('-' :: '-' :: (body ++ (commentEnd ++ post))) = none := by
      cases body with
      | nil => rfl
      | cons c body =>
        have hc : c ≠ '>' := by
          rintro rfl
          exact hbracket body rfl
        simp [commentEnd, Text.after?, Ne.symm hc]
    have hsecond : Text.after? commentEnd ('-' :: (body ++ (commentEnd ++ post))) = none := by
      cases body with
      | nil => rfl
      | cons c body =>
        by_cases hc : '-' = c
        · subst hc
          obtain ⟨d, rest, rfl, hd⟩ := h.after_hyphen
          have hd : d ≠ '>' := by
            rintro rfl
            exact harrow rest rfl
          simp [commentEnd, Text.after?, Ne.symm hd]
        · simp [commentEnd, Text.after?, hc]
    refine ⟨commentStart ++ body, ?_⟩
    rw [Text.cutAt?, hfirst, Text.cutAt?, hsecond, ← List.append_assoc, cutAt?_commentEnd h]
    rfl

/-- A comment has no signs, but for what is left of it. -/
theorem signs?_comment {body : List Char} (h : CommentBody body) (post : List Char) :
    signs? (commentStart ++ body ++ commentEnd ++ post) = signs? (leftOver body ++ post) := by
  obtain ⟨before, hcut⟩ := cutAt?_commentStart h post
  have hnext : ∃ hlt, next '<' ('!' :: '-' :: '-' :: (body ++ commentEnd ++ post)) =
      .ok (none, ⟨leftOver body ++ post, hlt⟩) := by
    refine ⟨shorter_of_cutAt? hcut, ?_⟩
    show skipPast '-' ['-', '>'] .openComment (commentStart ++ body ++ commentEnd ++ post) = _
    unfold skipPast
    split
    · rename_i hnone
      cases hcut.symm.trans hnone
    · rename_i hcut'
      cases hcut.symm.trans hcut'
      rfl
  obtain ⟨hlt, hnext⟩ := hnext
  have hsigns := signs?_next hnext
  rw [Option.elim_none] at hsigns
  simp only [List.nil_append, Option.map_id'] at hsigns
  exact hsigns

/-- A template with a comment in its content reads as the template without it, if the comment does not
begin with the end of an end mark: a bracket, or a hyphen and a bracket. A comment that does ends there,
and what is left of it, its own end mark included, is text. -/
theorem parse_comment {pre body : String} (hpre : EndsInContent pre.toList)
    (hbody : CommentBody body.toList) (post : String) (nodes : List Node) :
    (parse (pre ++ "<!--" ++ body ++ "-->" ++ post) = .ok nodes ↔
      parse (pre ++ String.ofList (leftOver body.toList) ++ post) = .ok nodes) ∧
    ((∀ rest, body.toList ≠ '>' :: rest ∧ body.toList ≠ '-' :: '>' :: rest) →
      (parse (pre ++ "<!--" ++ body ++ "-->" ++ post) = .ok nodes ↔
        parse (pre ++ post) = .ok nodes)) := by
  have hcomment := signs?_congr hpre (signs?_comment hbody post.toList)
  have hsource : (pre ++ "<!--" ++ body ++ "-->" ++ post).toList =
      pre.toList ++ (commentStart ++ body.toList ++ commentEnd ++ post.toList) := by
    simp [commentStart, commentEnd]
  have hleft : (pre ++ String.ofList (leftOver body.toList) ++ post).toList =
      pre.toList ++ (leftOver body.toList ++ post.toList) := by
    simp
  have hiff : parse (pre ++ "<!--" ++ body ++ "-->" ++ post) = .ok nodes ↔
      parse (pre ++ String.ofList (leftOver body.toList) ++ post) = .ok nodes := by
    rw [parse_iff_document, parse_iff_document, hsource, hleft, hcomment]
  refine ⟨hiff, fun hplain => ?_⟩
  have hnothing : leftOver body.toList = [] := by
    unfold leftOver
    split
    · rename_i hbracket
      exact absurd hbracket (hplain _).1
    · rename_i harrow
      exact absurd harrow (hplain _).2
    · rfl
  rw [hiff, hnothing, String.ofList_nil, String.append_empty]

/-- A comment between the members of a chain, with white space around it, a hyphen, a reference and a
tag in it. -/
theorem parse_comment_in_chain :
    ∃ nodes,
      parse ("<q>a<if c='1'>b</if> " ++ "<!--" ++ " - <elsif> & " ++ "-->" ++ "\n<else/></q>") =
        .ok nodes ∧
      parse ("<q>a<if c='1'>b</if> " ++ "\n<else/></q>") = .ok nodes ∧
      treeEvents nodes = [.text "a", .start "if" [("c", "1")] false, .text "b", .stop "if",
        .start "else" [] false, .stop "else", .text " \n"] := by
  have hmap : (parse ("<q>a<if c='1'>b</if> " ++ "\n<else/></q>")).map treeEvents =
      .ok [.text "a", .start "if" [("c", "1")] false, .text "b", .stop "if",
        .start "else" [] false, .stop "else", .text " \n"] := by decide +kernel
  obtain ⟨nodes, hparse, htree⟩ := exists_nodes_of_map hmap
  have hpre : EndsInContent "<q>a<if c='1'>b</if> ".toList := fun _ _ => by decide +kernel
  have hbody : CommentBody " - <elsif> & ".toList := commentBody_of_cutAt? (by decide) (by decide)
  have hcomment :=
    (parse_comment hpre hbody "\n<else/></q>" nodes).2 fun rest => ⟨by simp, by simp⟩
  exact ⟨nodes, hcomment.mpr hparse, hparse, htree⟩

/-- Comments whose bodies begin with the end of an end mark leave the rest of the body in the text. -/
theorem comment_ends_early :
    (parse "<q>a<!-->b-->c</q>").map treeEvents = .ok [.text "ab-->c"] ∧
    (parse "<q>a<!--->b-->c</q>").map treeEvents = .ok [.text "ab-->c"] ∧
    (parse "<q>ac</q>").map treeEvents = .ok [.text "ac"] ∧
    CommentBody ">b".toList ∧ CommentBody "->b".toList := by
  have hbracket : CommentBody ">b".toList := commentBody_of_cutAt? (by decide) (by decide)
  have harrow : CommentBody "->b".toList := commentBody_of_cutAt? (by decide) (by decide)
  exact ⟨by decide +kernel, by decide +kernel, by decide +kernel, hbracket, harrow⟩

end SqlTemplate.Template
