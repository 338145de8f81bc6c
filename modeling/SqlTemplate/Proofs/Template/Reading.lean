import SqlTemplate.Proofs.Template.Derivation
/-!
The reader of templates reads what the rules derive.

The reader goes over events and the rules over signs, so that a text is one step of the reader and a
step for each character for the rules. What is proved:
  1. `derives_of_children`, `derives_of_branch`, `derives_of_members`: what each part of the reader
     reads, the rules derive from the signs of the events.
  2. `children_of_derives`, `branch_of_derives`, `members_of_derives`: what the rules derive from the
     signs of events, that part of the reader reads.
  3. `parse_iff_document`: so a text can be parsed if its signs are those of a document, and its nodes
     are those of the document.
-/

namespace SqlTemplate.Template

/-! ## From the reader to the rules -/

theorem signs_cons (e : Located) (es : List Located) : signs (e :: es) = e.event.signs ++ signs es :=
  rfl

theorem signs_text {e : Located} {s : String} (he : e.event = .text s) (es : List Located) :
    signs (e :: es) = (pieces s).map .text ++ signs es := by
  rw [signs_cons, he, Event.signs]

def closed (empty : Bool) (name : String) : List Sign := if empty then [.closing name] else []

theorem signs_start {e : Located} {name : String} {attributes : List (String × String)}
    {empty : Bool} (he : e.event = .start name attributes empty) (es : List Located) :
    signs (e :: es) = .opening name attributes :: (closed empty name ++ signs es) := by
  rw [signs_cons, he, Event.signs]
  rfl

theorem signs_stop {e : Located} {name : String} (he : e.event = .stop name) (es : List Located) :
    signs (e :: es) = .closing name :: signs es := by
  rw [signs_cons, he, Event.signs]
  rfl

theorem condition_here {tag : String} {here : List Char} {c d : Option String}
    {attributes : List (String × String)} (h : condition tag here c attributes = .ok d)
    (here' : List Char) : condition tag here' c attributes = .ok d := by
  fun_induction condition tag here c attributes with
  | case1 => exact h
  | case2 => cases h
  | case3 => cases h
  | case4 c name value rest hname hblank ih =>
    rw [condition, if_neg hname, if_neg hblank]
    exact ih h

theorem separator_here {here : List Char} {sep sep' : String} {attributes : List (String × String)}
    (h : separator here sep attributes = .ok sep') (here' : List Char) :
    separator here' sep attributes = .ok sep' := by
  fun_induction separator here sep attributes with
  | case1 => exact h
  | case2 => cases h
  | case3 sep name value rest hname ih =>
    rw [separator, if_neg hname]
    exact ih h

theorem signs_of_textOnly {opened : List Char} {es r : List Located} {s : String}
    {hlt : r.length < es.length} (h : textOnly opened es = .ok (s, ⟨r, hlt⟩)) :
    ∃ ws, signs es = ws.map .text ++ .closing "a" :: signs r ∧ String.join ws = s := by
  induction es generalizing s with
  | nil => cases h
  | cons e es ih =>
    simp only [textOnly] at h
    split at h
    · rename_i t he
      split at h
      · cases h
      · rename_i htext
        cases h
        obtain ⟨ws, hes, hws⟩ := ih htext
        refine ⟨pieces t ++ ws, ?_, ?_⟩
        · rw [signs_text he, hes, List.map_append, List.append_assoc]
        · rw [String.join_append, join_pieces, hws]
    · rename_i name he
      split at h
      · rename_i hname
        cases h
        subst hname
        exact ⟨[], signs_stop he _, rfl⟩
      · cases h
    · cases h

theorem signs_of_expansion {attributes : List (String × String)} {empty : Bool}
    {here : List Char} {es r : List Located} {n : Node} {hle : r.length ≤ es.length}
    (h : expansion attributes empty here es = .ok (n, ⟨r, hle⟩)) :
    ∃ name sep ws, n = .expand name sep ∧ separator [] defaultSeparator attributes = .ok sep ∧
      closed empty "a" ++ signs es = ws.map .text ++ .closing "a" :: signs r ∧
      expansionName? (String.join ws) = some name := by
  unfold expansion at h
  split at h
  · cases h
  · rename_i sep hsep
    split at h
    · cases h
    · rename_i hempty
      split at h
      · cases h
      · rename_i s r1 h1 htext
        split at h
        · rename_i name hname
          cases h
          obtain ⟨ws, hes, rfl⟩ := signs_of_textOnly htext
          rw [Bool.eq_false_iff.mpr hempty]
          exact ⟨name, sep, ws, rfl, separator_here hsep [], hes, hname⟩
        · cases h

theorem signs_of_nextMember? {es : List Located} {m : NextMember es} (h : nextMember? es = some m) :
    ∃ ws, Text.allBlank (String.join ws).toList = true ∧ String.join ws = m.gap ∧
      signs es = ws.map .text ++ .opening (if m.isElse then "else" else "elsif") m.attributes ::
        (closed m.empty (if m.isElse then "else" else "elsif") ++ signs m.rest.1) := by
  induction es with
  | nil => cases h
  | cons e es ih =>
    simp only [nextMember?] at h
    split at h
    · rename_i s he
      split at h
      · rename_i hs
        obtain ⟨m', hm', rfl⟩ := Option.map_eq_some_iff.mp h
        obtain ⟨ws, hblank, hgap, hes⟩ := ih hm'
        refine ⟨pieces s ++ ws, ?_, ?_, ?_⟩
        · rw [String.join_append, join_pieces, allBlank_append, hs, hblank]
          rfl
        · rw [String.join_append, join_pieces, hgap]
        · rw [signs_text he, hes, List.map_append, List.append_assoc]
      · cases h
    · rename_i name attributes empty he
      split at h
      · rename_i hname
        cases h
        refine ⟨[], rfl, rfl, ?_⟩
        rw [signs_start he]
        rcases hname with rfl | rfl <;> rfl
      · cases h
    · cases h

theorem continuesChain_of_nextMember? {es : List Located} (h : nextMember? es = none) :
    continuesChain (signs es) = false := by
  induction es with
  | nil => rfl
  | cons e es ih =>
    simp only [nextMember?] at h
    split at h
    · rename_i s he
      rw [signs_text he, continuesChain_texts, join_pieces, Bool.and_eq_false_iff]
      split at h
      · exact .inr (ih (Option.map_eq_none_iff.mp h))
      · rename_i hs
        exact .inl (Bool.eq_false_iff.mpr hs)
    · rename_i name attributes empty he
      split at h
      · cases h
      · rename_i hname
        rw [signs_start he, continuesChain, Bool.or_eq_false_iff, beq_eq_false_iff_ne,
          beq_eq_false_iff_ne]
        exact not_or.mp hname
    · rename_i name he
      rw [signs_stop he]
      rfl

mutual

/-- What the reader reads as the children of an element, the rules derive. -/
theorem derives_of_children (parent : String) (opened : List Char) (scope : Scope)
    (es : List Located) {ns : List Node} {r : List Located} {hlt : r.length < es.length}
    (h : children parent opened scope es = .ok (ns, ⟨r, hlt⟩)) :
    Derives (.children parent scope) (signs es) .nothing ns (signs r) := by
  cases es with
  | nil => rw [children] at h; cases h
  | cons e es =>
    rw [children] at h
    split at h
    · rename_i s he
      split at h
      · cases h
      · rename_i hns
        cases h
        rw [signs_text he, ← foldr_consText_pieces]
        exact (derives_of_children parent opened scope es hns).texts _
    · rename_i name he
      split at h
      · rename_i hname
        cases h
        rw [signs_stop he, hname]
        exact .stop
      · cases h
    · rename_i name attributes empty he
      rw [signs_start he]
      split at h
      · rename_i hname
        subst hname
        split at h
        · cases h
        · rename_i r1 h1 hbranch
          obtain ⟨hc, _, hbody⟩ := derives_of_branch _ _ _ _ es hbranch
          split at h
          · cases h
          · rename_i r2 h2 hmembers
            split at h
            · cases h
            · rename_i hns
              have hns := derives_of_children parent opened scope r2 hns
              have hrest := derives_of_members r1 hmembers hns
              cases h
              exact .chain hc hbody hrest
      · split at h
        · rename_i hname
          subst hname
          split at h
          · rename_i hscope
            subst hscope
            split at h
            · cases h
            · rename_i n r1 h1 hexpansion
              split at h
              · cases h
              · rename_i hns
                have hns := derives_of_children parent opened .implicitBranch r1 hns
                cases h
                obtain ⟨name, sep, ws, rfl, hsep, hws, hname⟩ := signs_of_expansion hexpansion
                rw [hws]
                exact .expansion hsep hname hns
          · cases h
        · split at h <;> cases h
termination_by 3 * es.length
decreasing_by all_goals subst_vars; simp only [List.length_cons]; omega

theorem derives_of_branch (tag : String) (attributes : List (String × String)) (empty : Bool)
    (here : List Char) (es : List Located) {c : Option String} {body : List Node}
    {r : List Located} {hle : r.length ≤ es.length}
    (h : branch tag attributes empty here es = .ok (c, body, ⟨r, hle⟩)) :
    condition tag [] none attributes = .ok c ∧ (tag = "elsif" → c.isSome = true) ∧
      Derives (.children tag (bodyScope c)) (closed empty tag ++ signs es) .nothing body
        (signs r) := by
  rw [branch] at h
  split at h
  · cases h
  · rename_i d hd
    have hd := condition_here hd []
    split at h
    · cases h
    · rename_i helsif
      have hsome : tag = "elsif" → d.isSome = true := fun htag => by
        cases d with
        | none => exact absurd ⟨htag, rfl⟩ helsif
        | some c => rfl
      split at h
      · rename_i hempty
        cases h
        rw [hempty]
        exact ⟨hd, hsome, .stop⟩
      · rename_i hempty
        split at h
        · cases h
        · rename_i hchildren
          cases h
          rw [bodyScope_eq] at hchildren
          rw [Bool.eq_false_iff.mpr hempty]
          exact ⟨hd, hsome, derives_of_children _ _ _ es hchildren⟩
termination_by 3 * es.length + 1
decreasing_by omega

/-- What the reader reads as the further members of a chain, the rules derive in front of what they
derive behind the chain. -/
theorem derives_of_members (es : List Located) {ms : Members} {gap : String} {r : List Located}
    {hle : r.length ≤ es.length} (h : members es = .ok (ms, gap, ⟨r, hle⟩)) {parent : String}
    {scope : Scope} {ns : List Node} {rest : List Sign}
    (hns : Derives (.children parent scope) (signs r) .nothing ns rest) :
    Derives (.chain parent scope) (signs es) ms (gapped gap ns) rest := by
  rw [members] at h
  split at h
  · rename_i hnone
    cases h
    exact .close (continuesChain_of_nextMember? hnone) hns
  · rename_i m hm
    have hlen := m.rest.2
    obtain ⟨ws, hblank, hgap, hes⟩ := signs_of_nextMember? hm
    split at h
    · rename_i helse
      rw [helse] at hes
      split at h
      · cases h
      · rename_i hattributes
        rw [hattributes] at hes
        split at h
        · rename_i hempty
          cases h
          rw [hes, hempty, ← hgap]
          exact (Derives.otherwise .stop hns).gaps hblank rfl
        · rename_i hempty
          split at h
          · cases h
          · rename_i hbody
            have hbody := derives_of_children _ _ _ m.rest.1 hbody
            cases h
            rw [hes, Bool.eq_false_iff.mpr hempty, ← hgap]
            exact (Derives.otherwise hbody hns).gaps hblank rfl
    · rename_i helsif
      rw [if_neg helsif] at hes
      split at h
      · cases h
      · rename_i c body r1 h1 hbranch
        obtain ⟨hc, hsome, hbody⟩ := derives_of_branch _ _ _ _ m.rest.1 hbranch
        split at h
        · cases h
        · rename_i hmembers
          cases h
          have hrest := derives_of_members r1 hmembers hns
          cases c with
          | none => cases hsome rfl
          | some c =>
            rw [hes, ← hgap, ← gapped_gapped]
            exact (Derives.branch hc hbody hrest).gaps hblank rfl
termination_by 3 * es.length + 2
decreasing_by all_goals omega

end

/-! ## From the rules to the reader -/

theorem texts_prefix {vs ws : List String} {ss ts : List Sign}
    (hts : ∀ s, ts.head? ≠ some (.text s)) (h : vs.map .text ++ ss = ws.map .text ++ ts) :
    ∃ ws', ws = vs ++ ws' ∧ ss = ws'.map .text ++ ts := by
  induction vs generalizing ws with
  | nil => exact ⟨ws, rfl, h⟩
  | cons v vs ih =>
    cases ws with
    | nil => exact absurd (by rw [← List.nil_append ts, ← List.map_nil, ← h]; rfl) (hts v)
    | cons w ws =>
      obtain ⟨hvw, htail⟩ := List.cons.inj h
      cases hvw
      obtain ⟨ws', rfl, hss⟩ := ih htail
      exact ⟨ws', rfl, hss⟩

theorem textOnly_of_signs {es : List Located} {ws : List String} {ss : List Sign}
    (h : signs es = ws.map .text ++ .closing "a" :: ss) (opened : List Char) :
    ∃ r hlt, textOnly opened es = .ok (String.join ws, ⟨r, hlt⟩) ∧ signs r = ss := by
  induction es generalizing ws with
  | nil => cases ws <;> cases h
  | cons e es ih =>
    cases he : e.event with
    | text s =>
      rw [signs_text he] at h
      have hclosing (t : String) : (Sign.closing "a" :: ss).head? ≠ some (.text t) := nofun
      obtain ⟨ws', rfl, hes⟩ := texts_prefix hclosing h
      obtain ⟨r, hlt, htext, hr⟩ := ih hes
      refine ⟨r, Nat.lt_succ_of_lt hlt, ?_, hr⟩
      simp only [textOnly, he, htext, String.join_append, join_pieces]
    | start name attributes empty =>
      rw [signs_start he] at h
      cases ws <;> cases h
    | stop name =>
      rw [signs_stop he] at h
      cases ws with
      | nil =>
        cases h
        refine ⟨es, Nat.lt_succ_self _, ?_, rfl⟩
        simp only [textOnly, he, if_pos, String.join_nil]
      | cons w ws => cases h

theorem expansionName?_empty : expansionName? "" = none := rfl

theorem expansion_of_signs {attributes : List (String × String)} {empty : Bool} {sep name : String}
    {ws : List String} {es : List Located} {ss : List Sign}
    (hsep : separator [] defaultSeparator attributes = .ok sep)
    (hname : expansionName? (String.join ws) = some name)
    (h : closed empty "a" ++ signs es = ws.map .text ++ .closing "a" :: ss) (here : List Char) :
    ∃ r hle, expansion attributes empty here es = .ok (.expand name sep, ⟨r, hle⟩) ∧
      signs r = ss := by
  cases empty with
  | true =>
    -- The element holds no text, and so no name.
    cases ws with
    | nil =>
      rw [String.join_nil, expansionName?_empty] at hname
      cases hname
    | cons w ws => cases h
  | false =>
    obtain ⟨r, hlt, htext, hr⟩ := textOnly_of_signs h here
    refine ⟨r, Nat.le_of_lt hlt, ?_, hr⟩
    simp only [expansion, separator_here hsep here, htext, hname, Bool.false_eq_true, if_false]

mutual

/-- What the rules derive from the signs of events, the reader reads. -/
theorem children_of_derives {parent : String} {scope : Scope} {es : List Located} {ns : List Node}
    {rest : List Sign} (h : Derives (.children parent scope) (signs es) .nothing ns rest)
    (opened : List Char) :
    ∃ r hlt, children parent opened scope es = .ok (ns, ⟨r, hlt⟩) ∧ signs r = rest := by
  cases es with
  | nil => cases h
  | cons e es =>
    cases he : e.event with
    | text s =>
      rw [signs_text he] at h
      obtain ⟨ns', hns', rfl⟩ := h.of_texts
      obtain ⟨r, hlt, hchildren, hr⟩ := children_of_derives hns' opened
      refine ⟨r, Nat.lt_succ_of_lt hlt, ?_, hr⟩
      rw [children, foldr_consText_pieces]
      simp only [he, hchildren]
    | stop name =>
      rw [signs_stop he] at h
      cases h
      refine ⟨es, Nat.lt_succ_self _, ?_, rfl⟩
      rw [children]
      simp only [he, if_pos]
    | start name attributes empty =>
      rw [signs_start he] at h
      generalize hss : Sign.opening name attributes :: (closed empty name ++ signs es) = ss at h
      cases h with
      | stop => cases hss
      | text => cases hss
      | @expansion _ sep label _ ws ss _ ns hsep hlabel h =>
        obtain ⟨hopening, hinside⟩ := List.cons.inj hss
        cases hopening
        obtain ⟨r₁, hle, hexpansion, rfl⟩ := expansion_of_signs hsep hlabel hinside e.here
        obtain ⟨r₂, hlt, hchildren, hr⟩ := children_of_derives h opened
        refine ⟨r₂, by simp only [List.length_cons]; omega, ?_, hr⟩
        rw [children]
        simp [he, hexpansion, hchildren]
      | @chain _ _ _ c ss more _ body ns ms hc hbody h =>
        obtain ⟨hopening, hinside⟩ := List.cons.inj hss
        cases hopening
        rw [← hinside] at hbody
        obtain ⟨r₁, hle₁, hbranch, rfl⟩ := branch_of_derives hc (by simp) hbody e.here
        obtain ⟨gap, r₂, hle₂, ns', hmembers, hns', rfl⟩ := members_of_derives h
        obtain ⟨r₃, hlt, hchildren, hr⟩ := children_of_derives hns' opened
        refine ⟨r₃, by simp only [List.length_cons]; omega, ?_, hr⟩
        rw [children]
        simp [he, hbranch, hmembers, hchildren, gapped]
termination_by 3 * es.length
decreasing_by all_goals subst_vars; simp only [List.length_cons]; omega

theorem branch_of_derives {tag : String} {attributes : List (String × String)} {empty : Bool}
    {es : List Located} {c : Option String} {body : List Node} {more : List Sign}
    (hc : condition tag [] none attributes = .ok c) (hsome : tag = "elsif" → c.isSome = true)
    (h : Derives (.children tag (bodyScope c)) (closed empty tag ++ signs es) .nothing body more)
    (here : List Char) :
    ∃ r hle, branch tag attributes empty here es = .ok (c, body, ⟨r, hle⟩) ∧ signs r = more := by
  have helsif : ¬ (tag = "elsif" ∧ c.isNone = true) := by
    intro ⟨htag, hnone⟩
    have hsome := hsome htag
    cases c <;> contradiction
  cases empty with
  | true =>
    generalize bodyScope c = scope at h
    cases h
    refine ⟨es, Nat.le_refl _, ?_, rfl⟩
    rw [branch]
    simp only [condition_here hc here, if_neg helsif, if_true]
  | false =>
    obtain ⟨r, hlt, hchildren, hr⟩ := children_of_derives h here
    refine ⟨r, Nat.le_of_lt hlt, ?_, hr⟩
    rw [branch]
    simp only [condition_here hc here, if_neg helsif, Bool.false_eq_true, if_false, bodyScope_eq,
      hchildren]
termination_by 3 * es.length + 1
decreasing_by omega

/-- What the rules derive behind a member of a chain, the reader reads as the further members, and
then as the children that follow. -/
theorem members_of_derives {parent : String} {scope : Scope} {es : List Located} {ms : Members}
    {ns : List Node} {rest : List Sign} (h : Derives (.chain parent scope) (signs es) ms ns rest) :
    ∃ gap r hle ns', members es = .ok (ms, gap, ⟨r, hle⟩) ∧
      Derives (.children parent scope) (signs r) .nothing ns' rest ∧ ns = gapped gap ns' := by
  cases hm : nextMember? es with
  | none =>
    have hend := continuesChain_of_nextMember? hm
    generalize hss : signs es = ss at h hend
    cases h with
    | close _ h =>
      rw [← hss] at h
      refine ⟨"", es, Nat.le_refl _, ns, ?_, h, rfl⟩
      rw [members, hm]
    | gap hs hmore =>
      rw [continuesChain, hs, hmore] at hend
      cases hend
    | branch => cases hend
    | otherwise => cases hend
  | some m =>
    have hlen := m.rest.2
    obtain ⟨ws, hblank, hgap, hes⟩ := signs_of_nextMember? hm
    rw [hes] at h
    cases helse : m.isElse with
    | true =>
      rw [helse] at h
      obtain ⟨ns, hns, rfl⟩ := h.of_gaps hblank rfl
      obtain ⟨body, more, hattributes, hbody, hafter, rfl⟩ := Derives.of_else hns
      cases hempty : m.empty with
      | true =>
        rw [hempty] at hbody
        cases hbody
        refine ⟨m.gap, m.rest.1, Nat.le_of_lt hlen, ns, ?_, hafter, by rw [hgap]⟩
        rw [members]
        simp [hm, helse, hattributes, hempty]
      | false =>
        rw [hempty] at hbody
        obtain ⟨r, hlt, hchildren, rfl⟩ := children_of_derives hbody m.here
        refine ⟨m.gap, r, by omega, ns, ?_, hafter, by rw [hgap]⟩
        rw [members]
        simp [hm, helse, hattributes, hempty, hchildren]
    | false =>
      rw [helse] at h
      obtain ⟨ns, hns, rfl⟩ := h.of_gaps hblank rfl
      obtain ⟨c, body, more, ms, hc, hbody, hmore, rfl⟩ := Derives.of_elsif hns
      obtain ⟨r₁, hle₁, hbranch, rfl⟩ := branch_of_derives (c := some c) hc (fun _ => rfl) hbody m.here
      obtain ⟨gap, r₂, hle₂, ns, hmembers, hafter, rfl⟩ := members_of_derives hmore
      refine ⟨m.gap ++ gap, r₂, by omega, ns, ?_, hafter, by rw [gapped_gapped, hgap]⟩
      rw [members]
      simp [hm, helse, hbranch, hmembers]
termination_by 3 * es.length + 2
decreasing_by all_goals omega

end

/-! ## Documents -/

theorem signs_of_skipBlank {es es' : List Located} (h : skipBlank es = .ok es') :
    ∃ ws, Text.allBlank (String.join ws).toList = true ∧ signs es = ws.map .text ++ signs es' := by
  induction es with
  | nil =>
    cases h
    exact ⟨[], rfl, rfl⟩
  | cons e es ih =>
    simp only [skipBlank] at h
    split at h
    · rename_i s he
      split at h
      · rename_i hs
        obtain ⟨ws, hblank, hes⟩ := ih h
        refine ⟨pieces s ++ ws, ?_, ?_⟩
        · rw [String.join_append, join_pieces, allBlank_append, hs, hblank]
          rfl
        · rw [signs_text he, hes, List.map_append, List.append_assoc]
      · cases h
    · cases h
      exact ⟨[], rfl, rfl⟩

theorem skipBlank_of_signs {es : List Located} {ws : List String} {ss : List Sign}
    (hss : ∀ s, ss.head? ≠ some (.text s)) (hws : Text.allBlank (String.join ws).toList = true)
    (h : signs es = ws.map .text ++ ss) : ∃ es', skipBlank es = .ok es' ∧ signs es' = ss := by
  induction es generalizing ws with
  | nil =>
    cases ws with
    | nil => exact ⟨[], rfl, h⟩
    | cons w ws => cases h
  | cons e es ih =>
    cases he : e.event with
    | text s =>
      rw [signs_text he] at h
      obtain ⟨ws', rfl, hes⟩ := texts_prefix hss h
      rw [String.join_append, join_pieces, allBlank_append, Bool.and_eq_true] at hws
      obtain ⟨es', hskip, hes'⟩ := ih hws.2 hes
      refine ⟨es', ?_, hes'⟩
      simp only [skipBlank, he, hws.1, if_true, hskip]
    | start name attributes empty =>
      cases ws with
      | nil => exact ⟨e :: es, by simp only [skipBlank, he], h⟩
      | cons w ws =>
        rw [signs_start he] at h
        cases h
    | stop name =>
      cases ws with
      | nil => exact ⟨e :: es, by simp only [skipBlank, he], h⟩
      | cons w ws =>
        rw [signs_stop he] at h
        cases h

theorem eq_nil_of_signs {es : List Located} (h : signs es = []) : es = [] := by
  cases es with
  | nil => rfl
  | cons e es =>
    cases he : e.event with
    | text s =>
      rw [signs_text he] at h
      have hpieces := (List.append_eq_nil_iff.mp h).1
      exact absurd (List.map_eq_nil_iff.mp hpieces) (pieces_ne_nil s)
    | start name attributes empty => rw [signs_start he] at h; cases h
    | stop name => rw [signs_stop he] at h; cases h

theorem document_of_ofEvents {es : List Located} {ns : List Node} (h : ofEvents es = .ok ns) :
    Document (signs es) ns := by
  unfold ofEvents at h
  split at h
  · cases h
  · cases h
  · rename_i e r hskip
    obtain ⟨before, hbefore, hes⟩ := signs_of_skipBlank hskip
    split at h
    · rename_i name attributes empty he
      have hinside : ∃ r', ((if empty then .ok ([], r) else
          (children name e.here .root r).map fun p => (p.1, p.2.1)) :
            Except Failure (List Node × List Located)) = .ok (ns, r') ∧ skipBlank r' = .ok [] := by
        simp only at h
        split at h
        · cases h
        · rename_i ns' r' hinside
          split at h
          · cases h
          · rename_i hskip'
            cases h
            exact ⟨r', hinside, hskip'⟩
          · cases h
      obtain ⟨r', hinside, hskip'⟩ := hinside
      obtain ⟨after, hafter, hr'⟩ := signs_of_skipBlank hskip'
      have hnil : signs [] = [] := rfl
      rw [hnil, List.append_nil] at hr'
      refine ⟨before, after, name, attributes, closed empty name ++ signs r, ?_, ?_, hbefore, hafter⟩
      · rw [hes, signs_start he]
      · rw [← hr']
        cases empty with
        | true =>
          cases hinside
          exact .stop
        | false =>
          cases hchildren : children name e.here .root r with
          | error err => rw [hchildren] at hinside; cases hinside
          | ok result =>
            rw [hchildren] at hinside
            cases hinside
            exact derives_of_children name e.here .root r hchildren
    · cases h

theorem ofEvents_of_document {es : List Located} {ns : List Node} (h : Document (signs es) ns) :
    ofEvents es = .ok ns := by
  obtain ⟨before, after, name, attributes, inside, hes, hinside, hbefore, hafter⟩ := h
  obtain ⟨es', hskip, hes'⟩ := skipBlank_of_signs (by simp) hbefore hes
  cases es' with
  | nil => cases hes'
  | cons e r =>
    cases he : e.event with
    | text s =>
      obtain ⟨w, ws, hpieces⟩ := List.exists_cons_of_ne_nil (pieces_ne_nil s)
      rw [signs_text he, hpieces] at hes'
      cases hes'
    | stop n => rw [signs_stop he] at hes'; cases hes'
    | start n attrs empty =>
      rw [signs_start he] at hes'
      obtain ⟨hopening, hrest⟩ := List.cons.inj hes'
      cases hopening
      rw [← hrest] at hinside
      have hend {r' : List Located} (hr' : signs r' = after.map .text) : skipBlank r' = .ok [] := by
        rw [← List.append_nil (after.map Sign.text)] at hr'
        obtain ⟨es', hskip', hnil⟩ := skipBlank_of_signs (by simp) hafter hr'
        rw [hskip', eq_nil_of_signs hnil]
      unfold ofEvents
      rw [hskip]
      cases empty with
      | true =>
        generalize hss : closed true name ++ signs r = ss at hinside
        cases hinside with
        | stop =>
          obtain ⟨_, hr⟩ := List.cons.inj hss
          simp only [he, if_true, hend hr]
        | _ => cases hss
      | false =>
        obtain ⟨r', hlt, hchildren, hr'⟩ := children_of_derives hinside e.here
        simp only [he, Bool.false_eq_true, if_false, hchildren, Except.map, hend hr']

/-- A text can be parsed if it can be cut into signs and they are those of a document. -/
theorem parse_iff_document {source : String} {ns : List Node} :
    parse source = .ok ns ↔ ∃ ss, signs? source.toList = some ss ∧ Document ss ns := by
  have hparse : parse source = .ok ns ↔ read source.toList = .ok ns := by
    rw [parse]
    cases read source.toList <;> simp
  rw [hparse, read, signs?]
  cases events source.toList with
  | error e => simp [Except.bind, Except.toOption]
  | ok es =>
    have hread : (Except.ok es).bind ofEvents = .ok ns ↔ Document (signs es) ns :=
      ⟨document_of_ofEvents, ofEvents_of_document⟩
    rw [hread]
    simp [Except.toOption]

end SqlTemplate.Template
