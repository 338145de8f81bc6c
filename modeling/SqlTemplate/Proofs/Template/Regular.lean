import SqlTemplate.Template.Prune
import SqlTemplate.Template.Writer
/-!
The nodes that a template is read as obey the rules for nodes.

What is proved:
  1. `regular_of_children`, `regular_of_branch`, `regular_of_members`: what each of the readers gives
     is regular, whatever the events are.
  2. `isRegular_of_parse`: so is every template. Together with `parse_write` this says which trees
     the templates are: the regular ones, but for empty texts, which a section of character data can
     bring in.
-/

namespace SqlTemplate.Template

theorem nodeRegular_of_mem {scope : Scope} {nodes : List Node} {n : Node}
    (h : isRegular scope nodes = true) (hn : n ∈ nodes) : nodeRegular scope n = true := by
  induction nodes with
  | nil => cases hn
  | cons m ms ih =>
    simp only [isRegular, Bool.and_eq_true] at h
    rcases List.mem_cons.mp hn with rfl | hn
    · exact h.1.1
    · exact ih h.2 hn

theorem isRegular_consText {scope : Scope} {nodes : List Node} (h : isRegular scope nodes = true)
    (s : String) : isRegular scope (consText s nodes) = true := by
  unfold consText
  split
  · simpa [isRegular, nodeRegular, isText] using h
  · rename_i hnone
    have hhead : nodes.head?.any isText = false := by
      cases nodes with
      | nil => rfl
      | cons n ns =>
        cases n with
        | text t => exact absurd rfl (hnone t ns)
        | expand name sep => rfl
        | chain members => rfl
    simp [isRegular, nodeRegular, hhead, h]

theorem isRegular_chain {scope : Scope} {c : Option String} {body ns : List Node} {rest : Members}
    (hc : c.all (fun c => !Text.allBlank c.toList) = true)
    (hbody : isRegular (if c.isNone then .implicitBranch else .body) body = true)
    (hrest : membersRegular false rest = true) (hns : isRegular scope ns = true) :
    isRegular scope (.chain (.branch c body rest) :: ns) = true := by
  simp only [isRegular, nodeRegular, membersRegular, isText, Bool.true_or, Bool.true_and,
    Bool.false_and, Bool.not_false, Bool.and_true, Bool.and_eq_true]
  exact ⟨⟨⟨hc, hbody⟩, hrest⟩, hns⟩

theorem regular_of_condition {tag : String} {here : List Char} {c d : Option String}
    {attributes : List (String × String)} (h : condition tag here c attributes = .ok d)
    (hc : c.all (fun c => !Text.allBlank c.toList) = true) :
    d.all (fun c => !Text.allBlank c.toList) = true := by
  fun_induction condition tag here c attributes with
  | case1 => cases h; exact hc
  | case2 => cases h
  | case3 => cases h
  | case4 c name value rest _ hblank ih => exact ih h (by simpa using hblank)

theorem regular_of_expansionName? {s name : String} (h : expansionName? s = some name) :
    Placeholder.isName name.toList = true := by
  unfold expansionName? at h
  split at h
  · split at h
    · rename_i hname
      cases h
      rwa [String.toList_ofList]
    · cases h
  · cases h

theorem regular_of_expansion {attributes : List (String × String)} {empty : Bool}
    {here : List Char} {es : List Located} {n : Node} {r : NoMore es}
    (h : expansion attributes empty here es = .ok (n, r)) :
    nodeRegular .implicitBranch n = true ∧ isText n = false := by
  unfold expansion at h
  split at h
  · cases h
  · split at h
    · cases h
    · split at h
      · cases h
      · split at h
        · rename_i hname
          cases h
          exact ⟨by simp [nodeRegular, regular_of_expansionName? hname], rfl⟩
        · cases h

mutual

theorem regular_of_children (parent : String) (opened : List Char) (scope : Scope)
    (es : List Located) {ns : List Node} {r : Fewer es}
    (h : children parent opened scope es = .ok (ns, r)) : isRegular scope ns = true := by
  cases es with
  | nil => rw [children] at h; cases h
  | cons e es =>
    rw [children] at h
    split at h
    · -- A text joins the nodes behind it.
      split at h
      · cases h
      · rename_i hns
        cases h
        exact isRegular_consText (regular_of_children parent opened scope es hns) _
    · split at h <;> cases h
      rfl
    · split at h
      · split at h
        · cases h
        · rename_i r1 h1 hbranch
          obtain ⟨hc, _, hbody⟩ := regular_of_branch _ _ _ _ es hbranch
          split at h
          · cases h
          · rename_i r2 h2 hmembers
            have hrest := regular_of_members r1 hmembers
            split at h
            · cases h
            · rename_i hns
              have hns := regular_of_children parent opened scope r2 hns
              cases h
              split
              · exact isRegular_chain hc hbody hrest hns
              · exact isRegular_chain hc hbody hrest (isRegular_consText hns _)
      · split at h
        · split at h
          · rename_i hscope
            split at h
            · cases h
            · rename_i r1 h1 hn
              obtain ⟨hn, htext⟩ := regular_of_expansion hn
              split at h
              · cases h
              · rename_i hns
                have hns := regular_of_children parent opened scope r1 hns
                cases h
                rw [hscope] at hns ⊢
                simp [isRegular, hn, htext, hns]
          · cases h
        · split at h <;> cases h
termination_by 3 * es.length
decreasing_by all_goals subst_vars; simp only [List.length_cons]; omega

theorem regular_of_branch (tag : String) (attributes : List (String × String)) (empty : Bool)
    (here : List Char) (es : List Located) {c : Option String} {body : List Node} {r : NoMore es}
    (h : branch tag attributes empty here es = .ok (c, body, r)) :
    c.all (fun c => !Text.allBlank c.toList) = true ∧ (tag = "elsif" → c.isSome = true) ∧
      isRegular (if c.isNone then .implicitBranch else .body) body = true := by
  rw [branch] at h
  split at h
  · cases h
  · rename_i d hd
    have hd := regular_of_condition hd rfl
    split at h
    · cases h
    · rename_i helsif
      have hsome : tag = "elsif" → d.isSome = true := fun htag => by
        cases d with
        | none => exact absurd ⟨htag, rfl⟩ helsif
        | some c => rfl
      split at h
      · cases h
        exact ⟨hd, hsome, rfl⟩
      · split at h
        · cases h
        · rename_i hchildren
          cases h
          exact ⟨hd, hsome, regular_of_children _ _ _ es hchildren⟩
termination_by 3 * es.length + 1
decreasing_by omega

theorem regular_of_members (es : List Located) {ms : Members} {gap : String} {r : NoMore es}
    (h : members es = .ok (ms, gap, r)) : membersRegular false ms = true := by
  rw [members] at h
  split at h
  · cases h
    rfl
  · rename_i m hm
    have hlen := m.rest.2
    split at h
    · split at h
      · cases h
      · split at h
        · cases h
          rfl
        · split at h
          · cases h
          · rename_i hbody
            cases h
            simpa [membersRegular] using regular_of_children _ _ _ m.rest.1 hbody
    · split at h
      · cases h
      · rename_i r1 h1 hbranch
        obtain ⟨hc, hsome, hbody⟩ := regular_of_branch _ _ _ _ m.rest.1 hbranch
        split at h
        · cases h
        · rename_i hrest
          have hrest := regular_of_members r1 hrest
          cases h
          simp only [membersRegular, Bool.and_eq_true, Bool.false_or]
          exact ⟨⟨⟨hsome rfl, hc⟩, hbody⟩, hrest⟩
termination_by 3 * es.length + 2
decreasing_by all_goals omega

end

theorem regular_of_ofEvents {es : List Located} {nodes : List Node}
    (h : ofEvents es = .ok nodes) : isRegular .root nodes = true := by
  unfold ofEvents at h
  split at h
  · cases h
  · cases h
  · rename_i e r _
    split at h
    · rename_i name _ empty _
      -- An empty root has no children, any other those that are read.
      cases empty with
      | true =>
        simp only [if_true] at h
        split at h <;> cases h
        rfl
      | false =>
        cases hchildren : children name e.here .root r with
        | error err => simp only [hchildren, Bool.false_eq_true, if_false] at h; cases h
        | ok p =>
          simp only [hchildren, Bool.false_eq_true, if_false, Except.map] at h
          split at h <;> cases h
          exact regular_of_children name e.here .root r hchildren
    · cases h

/-- The nodes of a template obey the rules for nodes. -/
theorem isRegular_of_parse {source : String} {nodes : List Node} (h : parse source = .ok nodes) :
    isRegular .root nodes = true := by
  unfold parse at h
  split at h
  · rename_i hread
    cases h
    unfold read at hread
    cases hevents : events source.toList with
    | error err => rw [hevents] at hread; cases hread
    | ok es =>
      rw [hevents] at hread
      exact regular_of_ofEvents hread
  · cases h

end SqlTemplate.Template
