import SqlTemplate.Proofs.Template.Element
import SqlTemplate.Proofs.Template.Exchange
/-!
White space between the members of a chain.

What is proved:
  1. `Gathers.move`: the white space between the members of a chain can be exchanged for other white
     space behind the chain.
  2. `FurtherMembers.exists_hole`: so a template with a chain is read whatever white space stands behind
     the chain instead, and the nodes differ in it only.
  3. `parse_gaps`: the template reads as it does with the white space moved behind the chain, and the
     white space is in its text once, right behind the text of the chain, if the chain is reached.
-/

namespace SqlTemplate.Template

/-- An element is opened in a text that can be cut into signs. -/
def OpensElement (source : String) : Prop :=
  ∃ ss, signs? source.toList = some ss ∧ ∃ name attributes, .opening name attributes ∈ ss

/-- No further member of a chain begins at the start of the text, white space aside. -/
def EndsChain (source : String) : Prop :=
  ∀ ss, signs? source.toList = some ss → continuesChain ss = false

/-- A chain with white space between its members, or without and any white space behind it. -/
def Gathers.move {es ss ts after : List Sign} {gap : String} (h : Gathers ss ts gap)
    (hes : ElementSigns "if" es) (hafter : continuesChain after = false) : Move where
  signs := es ++ (ss ++ after)
  moved g := es ++ (ts ++ (textSigns g.toList ++ after))
  gap := gap
  property members :=
    Derives (.children "q" .root) (es ++ (ts ++ [.closing "q"])) .nothing [.chain members] []
  opens := by
    obtain ⟨attributes, inside, rfl, _⟩ := hes
    exact ⟨attributes, _, rfl⟩
  opens_moved g := by
    obtain ⟨attributes, inside, rfl, _⟩ := hes
    exact ⟨attributes, _, rfl⟩
  reads := by
    intro parent scope ns rest hns
    obtain ⟨attributes, inside, rfl, hinside⟩ := hes
    obtain ⟨c, body, more, members, ns, hc, hbody, hmembers, rfl⟩ := hns.of_if
    obtain ⟨rfl, hinner⟩ := hbody.inside hinside rfl
    obtain ⟨ns, rfl, hchildren, hgives⟩ := h _ _ _ _ _ _ hafter hmembers
    refine ⟨.branch c body members, ns, ?_, rfl, fun g => ?_⟩
    · exact .chain hc (hinner _) (hgives _ _ _ _ _ rfl .stop)
    · have hend : continuesChain (textSigns g.toList ++ after) = false := by
        rw [textSigns_eq, continuesChain_texts, hafter, Bool.and_false]
      exact .chain hc (hinner _) (hgives _ _ _ _ _ hend (hchildren.characters g))

/-- A template with a chain is read with any white space behind the chain, if it is read with white space
between the members. The nodes differ in this white space only, and the chain by itself is read as the
chain among them. -/
theorem FurtherMembers.exists_hole {pre first rest : String} {more : List FurtherMember}
    {nodes : List Node} (hmore : FurtherMembers more) (hpre : OpensElement pre)
    (hfirst : IsElement "if" first) (hrest : EndsChain rest)
    (hnodes : parse (pre ++ first ++ spaced more ++ rest) = .ok nodes) :
    ∃ (hole : Hole) (members : Members) (after : List Node),
      parse ("<q>" ++ first ++ tight more ++ "</q>") = .ok [.chain members] ∧
      nodes = hole.fill (.chain members :: gapped (gaps more) after) ∧
      ∀ gap : String, Text.allBlank gap.toList = true →
        parse (pre ++ first ++ tight more ++ gap ++ rest) =
          .ok (hole.fill (.chain members :: gapped gap after)) := by
  obtain ⟨ps, hps, hopening⟩ := hpre
  obtain ⟨es, hes, hfirst⟩ := hfirst
  obtain ⟨ss, ts, hss, hts, hgathers⟩ := hmore.gathers
  obtain ⟨all, hall, hdocument⟩ := parse_iff_document.mp hnodes
  have hbefore := signs?_both (signs?_both hps hes) hss
  rw [String.toList_append, signs?_append hbefore, Option.map_eq_some_iff] at hall
  obtain ⟨rs, hrs, rfl⟩ := hall
  let move := hgathers.move hfirst (hrest rs hrs)
  have hspaced : ps ++ es ++ ss ++ rs = ps ++ move.signs := by
    simp only [List.append_assoc]
    rfl
  rw [hspaced] at hdocument
  obtain ⟨hole, members, after, hchain, hfill, hmoved⟩ := move.lift_document hdocument hopening
  refine ⟨hole, members, after, ?_, hfill, fun gap hgap => ?_⟩
  · have hopening : signs? "<q>".toList = some [.opening "q" []] := by decide +kernel
    have hclosing : signs? "</q>".toList = some [.closing "q"] := by decide +kernel
    have hsource := signs?_both (signs?_both (signs?_both hopening hes) hts) hclosing
    refine parse_iff_document.mpr ⟨_, hsource, [], [], "q", [], _, ?_, hchain, rfl, rfl⟩
    simp only [List.append_assoc]
    rfl
  · have htight := signs?_both (signs?_both hps hes) hts
    have hsource := signs?_both (signs?_both htight (signs?_blank hgap)) hrs
    have hsigns : ps ++ es ++ ts ++ textSigns gap.toList ++ rs = ps ++ move.moved gap := by
      simp only [List.append_assoc]
      rfl
    refine parse_iff_document.mpr ⟨_, hsource, ?_⟩
    rw [hsigns]
    exact hmoved gap

/-- The white space between the members of a chain is read as if it stood behind the chain: the source
with the white space there has the same nodes, and so prunes to the same SQL. The nodes have the white
space in front of what follows the chain, in which they differ from those without white space. So where
the chain is reached, the white space stands in the SQL right behind the text of the chain, and is the
only difference to the SQL without it; where it is not reached, there is no difference. -/
theorem parse_gaps {pre first rest : String} {more : List FurtherMember} {nodes : List Node}
    (hpre : OpensElement pre) (hfirst : IsElement "if" first) (hmore : FurtherMembers more)
    (hrest : EndsChain rest) (hnodes : parse (pre ++ first ++ spaced more ++ rest) = .ok nodes) :
    parse (pre ++ first ++ tight more ++ gaps more ++ rest) = .ok nodes ∧
    (∀ values repeats, prune (pre ++ first ++ spaced more ++ rest) values repeats =
      prune (pre ++ first ++ tight more ++ gaps more ++ rest) values repeats) ∧
    ∃ (hole : Hole) (members : Members) (after : List Node),
      parse ("<q>" ++ first ++ tight more ++ "</q>") = .ok [.chain members] ∧
      nodes = hole.fill (.chain members :: gapped (gaps more) after) ∧
      parse (pre ++ first ++ tight more ++ rest) = .ok (hole.fill (.chain members :: after)) ∧
      ∀ values repeats,
        (hole.Reached values repeats (.chain members :: gapped (gaps more) after) → ∀ sql,
          prune (pre ++ first ++ spaced more ++ rest) values repeats = .ok sql →
          ∃ x body y, prune ("<q>" ++ first ++ tight more ++ "</q>") values repeats = .ok body ∧
            sql = x ++ body ++ gaps more ++ y ∧
            prune (pre ++ first ++ tight more ++ rest) values repeats = .ok (x ++ body ++ y)) ∧
        (¬ hole.Reached values repeats (.chain members :: gapped (gaps more) after) →
          prune (pre ++ first ++ tight more ++ rest) values repeats =
            prune (pre ++ first ++ spaced more ++ rest) values repeats) := by
  obtain ⟨hole, members, after, hchain, rfl, hgap⟩ := hmore.exists_hole hpre hfirst hrest hnodes
  have hmoved := hgap (gaps more) hmore.blank
  have hbare := hgap "" rfl
  rw [String.append_empty, gapped_empty] at hbare
  refine ⟨hmoved, fun values repeats => ?_, hole, members, after, hchain, rfl, hbare, ?_⟩
  · rw [prune_of_parse hnodes, prune_of_parse hmoved]
  · intro values repeats
    rw [prune_of_parse hnodes, prune_of_parse hchain, prune_of_parse hbare]
    exact ⟨fun hreached _ hsql => pruneNodes_gapped_reached hmore.blank hreached hsql,
      fun hreached => pruneNodes_gapped_unreached hmore.blank hreached⟩

/-- A chain of three members in a branch, with white space between them and a text behind it. -/
theorem parse_gaps_nested :
    ∃ nodes,
      parse ("<q>a<if c='1'>b " ++ "<if c='0'>c</if>" ++ "\n <elsif c='1'>d</elsif> <else/>" ++
        "e</if></q>") = .ok nodes ∧
      parse ("<q>a<if c='1'>b " ++ "<if c='0'>c</if>" ++ "<elsif c='1'>d</elsif><else/>" ++ "\n  " ++
        "e</if></q>") = .ok nodes ∧
      pruneNodes ∅ ∅ nodes = .ok "ab d\n  e" := by
  let more : List FurtherMember := [⟨"\n ", "<elsif c='1'>d</elsif>"⟩, ⟨" ", "<else/>"⟩]
  have hspaced : spaced more = "\n <elsif c='1'>d</elsif> <else/>" := by decide +kernel
  have htight : tight more = "<elsif c='1'>d</elsif><else/>" := by decide +kernel
  have hgaps : gaps more = "\n  " := by decide +kernel
  have hpre : OpensElement "<q>a<if c='1'>b " :=
    ⟨[.opening "q" [], .text "a", .opening "if" [("c", "1")], .text "b", .text " "],
      by decide +kernel, "q", [], List.mem_cons_self⟩
  have hfirst : IsElement "if" "<if c='0'>c</if>" :=
    ⟨[.opening "if" [("c", "0")], .text "c", .closing "if"], by decide +kernel,
      [("c", "0")], _, rfl, .text "c" (.stop "if")⟩
  have hbranch : IsElement "elsif" "<elsif c='1'>d</elsif>" :=
    ⟨[.opening "elsif" [("c", "1")], .text "d", .closing "elsif"], by decide +kernel,
      [("c", "1")], _, rfl, .text "d" (.stop "elsif")⟩
  have hotherwise : IsElement "else" "<else/>" :=
    ⟨[.opening "else" [], .closing "else"], by decide +kernel, [], _, rfl, .stop "else"⟩
  have hmore : FurtherMembers more := .branch (by decide) hbranch (.otherwise (by decide) hotherwise)
  have hsigns : signs? "e</if></q>".toList = some [.text "e", .closing "if", .closing "q"] := by
    decide +kernel
  have hrest : EndsChain "e</if></q>" := by
    intro ss hss
    cases hsigns.symm.trans hss
    rfl
  have hprune : prune ("<q>a<if c='1'>b " ++ "<if c='0'>c</if>" ++ spaced more ++ "e</if></q>") ∅ ∅ =
      .ok "ab d\n  e" := by decide +kernel
  obtain ⟨nodes, hnodes, hsql⟩ := prune_eq_ok_iff.mp hprune
  have hmoved := (parse_gaps hpre hfirst hmore hrest hnodes).1
  rw [hspaced] at hnodes
  rw [htight, hgaps] at hmoved
  exact ⟨nodes, hnodes, hmoved, hsql⟩

end SqlTemplate.Template
