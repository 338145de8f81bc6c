import SqlTemplate.Proofs.Template.Placement
import SqlTemplate.Proofs.Template.Sign
/-!
Rules by which the signs of a template give its nodes.

`Derives` has one rule for each thing that can be done with the sign in front: the children of an
element are read up to its closing, and behind a member of a chain further members are read before the
children go on. What is proved:
  1. `Derives.of_if`, `Derives.of_elsif`, `Derives.of_else`: the opening of a member of a chain says
     which rule has been used.
  2. `consText_consText`, `gapped_gapped`: texts and white space join what they stand in front of,
     however they are divided.
  3. `Derives.texts`, `Derives.of_texts`: so the pieces of a text among children are one text.
  4. `Derives.gaps`, `Derives.of_gaps`: so the pieces of the white space in front of a further member
     are one piece of white space behind the chain.
-/

namespace SqlTemplate.Template

/-- A piece of white space in front of nodes; none leaves them as they are. -/
def gapped (gap : String) (ns : List Node) : List Node := if gap.isEmpty then ns else consText gap ns

/-- Whether a further member of a chain begins behind white space. -/
def continuesChain : List Sign → Bool
  | .text s :: ss => Text.allBlank s.toList && continuesChain ss
  | .opening name _ :: _ => name == "elsif" || name == "else"
  | _ => false

/-- What is read: the children of an element, or what follows a member of a chain among them. -/
inductive Place where
  | children (parent : String) (scope : Scope)
  | chain (parent : String) (scope : Scope)

/-- At a place, signs give members of a chain, which are none among children, and nodes, and leave
the signs behind the closing of the parent. -/
inductive Derives : Place → List Sign → Members → List Node → List Sign → Prop
  | stop {parent : String} {scope : Scope} {rest : List Sign} :
      Derives (.children parent scope) (.closing parent :: rest) .nothing [] rest
  | text {parent s : String} {scope : Scope} {ss rest : List Sign} {ns : List Node}
      (h : Derives (.children parent scope) ss .nothing ns rest) :
      Derives (.children parent scope) (.text s :: ss) .nothing (consText s ns) rest
  | expansion {parent sep name : String} {attributes : List (String × String)} {ws : List String}
      {ss rest : List Sign} {ns : List Node}
      (hsep : separator [] defaultSeparator attributes = .ok sep)
      (hname : expansionName? (String.join ws) = some name)
      (h : Derives (.children parent .implicitBranch) ss .nothing ns rest) :
      Derives (.children parent .implicitBranch)
        (.opening "a" attributes :: (ws.map .text ++ .closing "a" :: ss)) .nothing
        (.expand name sep :: ns) rest
  | chain {parent : String} {scope : Scope} {attributes : List (String × String)}
      {c : Option String} {ss more rest : List Sign} {body ns : List Node} {ms : Members}
      (hc : condition "if" [] none attributes = .ok c)
      (hbody : Derives (.children "if" (bodyScope c)) ss .nothing body more)
      (h : Derives (.chain parent scope) more ms ns rest) :
      Derives (.children parent scope) (.opening "if" attributes :: ss) .nothing
        (.chain (.branch c body ms) :: ns) rest
  | close {parent : String} {scope : Scope} {ss rest : List Sign} {ns : List Node}
      (hend : continuesChain ss = false)
      (h : Derives (.children parent scope) ss .nothing ns rest) :
      Derives (.chain parent scope) ss .nothing ns rest
  | gap {parent s : String} {scope : Scope} {ss rest : List Sign} {ms : Members} {ns : List Node}
      (hs : Text.allBlank s.toList = true) (hmore : continuesChain ss = true)
      (h : Derives (.chain parent scope) ss ms ns rest) :
      Derives (.chain parent scope) (.text s :: ss) ms (gapped s ns) rest
  | branch {parent c : String} {scope : Scope} {attributes : List (String × String)}
      {ss more rest : List Sign} {body ns : List Node} {ms : Members}
      (hc : condition "elsif" [] none attributes = .ok (some c))
      (hbody : Derives (.children "elsif" .body) ss .nothing body more)
      (h : Derives (.chain parent scope) more ms ns rest) :
      Derives (.chain parent scope) (.opening "elsif" attributes :: ss) (.branch (some c) body ms)
        ns rest
  | otherwise {parent : String} {scope : Scope} {ss more rest : List Sign} {body ns : List Node}
      (hbody : Derives (.children "else" .body) ss .nothing body more)
      (h : Derives (.children parent scope) more .nothing ns rest) :
      Derives (.chain parent scope) (.opening "else" [] :: ss) (.otherwise body) ns rest

/-- The signs of a document: an element with the nodes as its children, white space around it. -/
def Document (ss : List Sign) (ns : List Node) : Prop :=
  ∃ (before after : List String) (name : String) (attributes : List (String × String))
    (inside : List Sign),
    ss = before.map .text ++ .opening name attributes :: inside ∧
    Derives (.children name .root) inside .nothing ns (after.map .text) ∧
    Text.allBlank (String.join before).toList = true ∧
    Text.allBlank (String.join after).toList = true

/-! ## What stands behind an opening -/

theorem Derives.of_if {parent : String} {scope : Scope} {attributes : List (String × String)}
    {ss rest : List Sign} {ms : Members} {ns : List Node}
    (h : Derives (.children parent scope) (.opening "if" attributes :: ss) ms ns rest) :
    ∃ c body more members after, condition "if" [] none attributes = .ok c ∧
      Derives (.children "if" (bodyScope c)) ss .nothing body more ∧
      Derives (.chain parent scope) more members after rest ∧
      ns = .chain (.branch c body members) :: after := by
  generalize hall : Sign.opening "if" attributes :: ss = all at h
  cases h with
  | stop => cases hall
  | text => cases hall
  | expansion => exact absurd (Sign.opening.inj (List.cons.inj hall).1).1 (by decide)
  | chain hc hbody h =>
    cases hall
    exact ⟨_, _, _, _, _, hc, hbody, h, rfl⟩

theorem Derives.of_elsif {parent : String} {scope : Scope} {attributes : List (String × String)}
    {ss rest : List Sign} {ms : Members} {ns : List Node}
    (h : Derives (.chain parent scope) (.opening "elsif" attributes :: ss) ms ns rest) :
    ∃ c body more members, condition "elsif" [] none attributes = .ok (some c) ∧
      Derives (.children "elsif" .body) ss .nothing body more ∧
      Derives (.chain parent scope) more members ns rest ∧ ms = .branch (some c) body members := by
  generalize hall : Sign.opening "elsif" attributes :: ss = all at h
  cases h with
  | close hend => rw [← hall] at hend; cases hend
  | gap => cases hall
  | branch hc hbody h =>
    cases hall
    exact ⟨_, _, _, _, hc, hbody, h, rfl⟩
  | otherwise => exact absurd (Sign.opening.inj (List.cons.inj hall).1).1 (by decide)

theorem Derives.of_else {parent : String} {scope : Scope} {attributes : List (String × String)}
    {ss rest : List Sign} {ms : Members} {ns : List Node}
    (h : Derives (.chain parent scope) (.opening "else" attributes :: ss) ms ns rest) :
    ∃ body more, attributes = [] ∧ Derives (.children "else" .body) ss .nothing body more ∧
      Derives (.children parent scope) more .nothing ns rest ∧ ms = .otherwise body := by
  generalize hall : Sign.opening "else" attributes :: ss = all at h
  cases h with
  | close hend => rw [← hall] at hend; cases hend
  | gap => cases hall
  | branch => exact absurd (Sign.opening.inj (List.cons.inj hall).1).1 (by decide)
  | otherwise hbody h =>
    cases hall
    exact ⟨_, _, rfl, hbody, h, rfl⟩

/-! ## Texts in pieces -/

theorem consText_consText (s t : String) (ns : List Node) :
    consText s (consText t ns) = consText (s ++ t) ns := by
  cases ns with
  | nil => rfl
  | cons n ns =>
    cases n with
    | text u => simp only [consText, String.append_assoc]
    | expand name sep => rfl
    | chain members => rfl

theorem gapped_empty (ns : List Node) : gapped "" ns = ns := rfl

theorem gapped_of_ne {s : String} (hs : s ≠ "") (ns : List Node) : gapped s ns = consText s ns :=
  if_neg (by simpa using hs)

theorem gapped_gapped (s t : String) (ns : List Node) :
    gapped s (gapped t ns) = gapped (s ++ t) ns := by
  by_cases hs : s = ""
  · rw [hs, gapped_empty, String.empty_append]
  · by_cases ht : t = ""
    · rw [ht, gapped_empty, String.append_empty]
    · have hst : s ++ t ≠ "" := by simp [hs]
      rw [gapped_of_ne hs, gapped_of_ne ht, gapped_of_ne hst, consText_consText]

theorem pieces_ne_nil (s : String) : pieces s ≠ [] := by
  unfold pieces
  split
  · exact List.cons_ne_nil _ _
  · rename_i hs
    simpa using hs

theorem join_singletons (cs : List Char) : String.join (cs.map String.singleton) = String.ofList cs := by
  induction cs with
  | nil => rfl
  | cons c cs ih => rw [List.map_cons, String.join_cons, ih]; simp

theorem join_pieces (s : String) : String.join (pieces s) = s := by
  unfold pieces
  split
  · rename_i hs
    rw [hs]
    rfl
  · rw [join_singletons, String.ofList_toList]

theorem allBlank_append (s t : String) :
    Text.allBlank (s ++ t).toList = (Text.allBlank s.toList && Text.allBlank t.toList) := by
  rw [String.toList_append, Text.allBlank, List.all_append]
  rfl

section
variable {parent : String} {scope : Scope} {ss rest : List Sign} {ms : Members} {ns : List Node}

theorem Derives.texts (ws : List String) (h : Derives (.children parent scope) ss .nothing ns rest) :
    Derives (.children parent scope) (ws.map .text ++ ss) .nothing (ws.foldr consText ns) rest := by
  induction ws with
  | nil => exact h
  | cons w ws ih => exact .text ih

theorem foldr_consText {ws : List String} (hws : ws ≠ []) (ns : List Node) :
    ws.foldr consText ns = consText (String.join ws) ns := by
  induction ws with
  | nil => exact absurd rfl hws
  | cons w ws ih =>
    rw [List.foldr_cons, String.join_cons]
    cases ws with
    | nil => rw [List.foldr_nil, String.join_nil, String.append_empty]
    | cons v ws => rw [ih (List.cons_ne_nil v ws), consText_consText]

theorem foldr_consText_pieces (s : String) (ns : List Node) :
    (pieces s).foldr consText ns = consText s ns := by
  rw [foldr_consText (pieces_ne_nil s), join_pieces]

theorem foldr_consText_chars (s : String) (ns : List Node) :
    (s.toList.map String.singleton).foldr consText ns = gapped s ns := by
  by_cases hs : s = ""
  · rw [hs]
    rfl
  · have hne : s.toList.map String.singleton ≠ [] := by simpa using hs
    rw [foldr_consText hne, join_singletons, String.ofList_toList, gapped_of_ne hs]

theorem Derives.characters (s : String) (h : Derives (.children parent scope) ss .nothing ns rest) :
    Derives (.children parent scope) (textSigns s.toList ++ ss) .nothing (gapped s ns) rest := by
  have htexts := h.texts (s.toList.map String.singleton)
  rwa [← textSigns_eq, foldr_consText_chars] at htexts

theorem Derives.of_texts {ws : List String}
    (h : Derives (.children parent scope) (ws.map .text ++ ss) .nothing ns rest) :
    ∃ ns', Derives (.children parent scope) ss .nothing ns' rest ∧ ns = ws.foldr consText ns' := by
  induction ws generalizing ns with
  | nil => exact ⟨ns, h, rfl⟩
  | cons w ws ih =>
    rw [List.map_cons, List.cons_append] at h
    cases h with
    | text h =>
      obtain ⟨ns', hns', rfl⟩ := ih h
      exact ⟨ns', hns', rfl⟩

theorem continuesChain_texts (ws : List String) (ss : List Sign) :
    continuesChain (ws.map .text ++ ss) =
      (Text.allBlank (String.join ws).toList && continuesChain ss) := by
  induction ws with
  | nil => rfl
  | cons w ws ih =>
    rw [List.map_cons, List.cons_append, continuesChain, ih, String.join_cons, allBlank_append,
      Bool.and_assoc]

theorem Derives.gaps {ws : List String} (hws : Text.allBlank (String.join ws).toList = true)
    (hmore : continuesChain ss = true) (h : Derives (.chain parent scope) ss ms ns rest) :
    Derives (.chain parent scope) (ws.map .text ++ ss) ms (gapped (String.join ws) ns) rest := by
  induction ws with
  | nil => exact h
  | cons w ws ih =>
    rw [String.join_cons, allBlank_append, Bool.and_eq_true] at hws
    have hmore' : continuesChain (ws.map .text ++ ss) = true := by
      rw [continuesChain_texts, hws.2, hmore]
      rfl
    rw [String.join_cons, ← gapped_gapped]
    exact .gap hws.1 hmore' (ih hws.2)

theorem Derives.of_gaps {ws : List String} (hws : Text.allBlank (String.join ws).toList = true)
    (hmore : continuesChain ss = true)
    (h : Derives (.chain parent scope) (ws.map .text ++ ss) ms ns rest) :
    ∃ ns', Derives (.chain parent scope) ss ms ns' rest ∧ ns = gapped (String.join ws) ns' := by
  induction ws generalizing ns with
  | nil => exact ⟨ns, h, rfl⟩
  | cons w ws ih =>
    have hall := continuesChain_texts (w :: ws) ss
    rw [hws, hmore] at hall
    rw [String.join_cons, allBlank_append, Bool.and_eq_true] at hws
    rw [List.map_cons, List.cons_append] at h hall
    cases h with
    | close hend =>
      rw [hall] at hend
      cases hend
    | gap hs _ h =>
      obtain ⟨ns', hns', rfl⟩ := ih hws.2 h
      exact ⟨ns', hns', by rw [String.join_cons, gapped_gapped]⟩

end

end SqlTemplate.Template
