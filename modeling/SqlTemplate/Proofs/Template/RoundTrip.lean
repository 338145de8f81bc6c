import SqlTemplate.Proofs.Template.Lexing
import SqlTemplate.Template.Prune
/-!
Reading the text of a template back.

What is proved:
  1. `writable_treeEvents`: the events of regular nodes can be written, since no text of theirs is
     empty or stands next to another one.
  2. `opensMember_treeEvents`: the events of regular nodes do not begin with white space and a
     further member of a chain, so that looking for one behind a chain finds none.
  3. `children_treeEvents`: from the events of regular nodes and the end of their parent, the nodes
     are read, and what follows is left.
  4. `parse_write`: a template is what its text parses to, whichever quotes are used and however the
     root element is called.
-/

namespace SqlTemplate.Template

/-! ## The events of nodes can be written -/

theorem named_nil : Named [] := ⟨by simp, by simp⟩

theorem named_singleton {key : String} (h : isTagName key.toList = true) (value : String) :
    Named [(key, value)] :=
  ⟨by simpa using h, by simp⟩

theorem named_conditionAttributes (condition : Option String) :
    Named (conditionAttributes condition) := by
  cases condition with
  | none => exact named_nil
  | some c => exact named_singleton (by decide) c

theorem opensText_treeEvents {scope : Scope} {nodes : List Node}
    (h : isRegular scope nodes = true) {es : List Event} (hes : opensText es = false)
    (hfirst : nodes.head?.any isText = false) : opensText (treeEvents nodes ++ es) = false := by
  cases nodes with
  | nil => exact hes
  | cons n ns =>
    cases n with
    | text s => cases hfirst
    | expand name sep => rfl
    | chain members =>
      cases members with
      | nothing => simp [isRegular, nodeRegular, membersRegular] at h
      | otherwise body => rfl
      | branch condition body rest => rfl

mutual

theorem writable_treeEvents : (nodes : List Node) → {scope : Scope} → {es : List Event} →
    isRegular scope nodes = true → textsFull nodes = true → opensText es = false → Writable es →
    Writable (treeEvents nodes ++ es)
  | [], _, _, _, _, _, hes => hes
  | n :: ns, scope, es, hreg, hfull, hopen, hes => by
    simp only [isRegular, Bool.and_eq_true, Bool.not_eq_true', Bool.and_eq_false_iff] at hreg
    obtain ⟨⟨hn, hapart⟩, hns⟩ := hreg
    rw [textsFull, Bool.and_eq_true] at hfull
    have htail := writable_treeEvents ns hns hfull.2 hopen hes
    rw [treeEvents, List.append_assoc]
    refine writable_nodeEvents n hn hfull.1 (fun htext => ?_) htail
    refine opensText_treeEvents hns hopen ?_
    exact hapart.resolve_left (by rw [htext]; decide)

theorem writable_nodeEvents : (n : Node) → {scope : Scope} → {es : List Event} →
    nodeRegular scope n = true → nodeFull n = true → (isText n = true → opensText es = false) →
    Writable es → Writable (nodeEvents n ++ es)
  | .text s, _, _, _, hfull, hopen, hes => by
    have hs : s ≠ "" := by simpa [nodeFull] using hfull
    exact ⟨hs, fun _ => hopen rfl, hes⟩
  | .expand name sep, _, _, _, _, _, hes => by
    have htag : isTagName "a".toList = true := by decide
    have hsep : Named [("sep", sep)] := named_singleton (by decide) sep
    have hname : ":" ++ name ≠ "" := by simp
    exact ⟨⟨htag, hsep⟩, nofun, hname, fun _ => rfl, htag, nofun, hes⟩
  | .chain members, _, _, hreg, hfull, _, hes =>
    writable_memberEvents "if" (by decide) members hreg hfull hes

theorem writable_memberEvents (tag : String) (htag : isTagName tag.toList = true) :
    (ms : Members) → {first : Bool} → {es : List Event} → membersRegular first ms = true →
    membersFull ms = true → Writable es → Writable (memberEvents tag ms ++ es)
  | .nothing, _, _, _, _, hes => hes
  | .otherwise body, _, es, hreg, hfull, hes => by
    rw [membersRegular, Bool.and_eq_true] at hreg
    have helse : isTagName "else".toList = true := by decide
    have hstop : Writable (.stop "else" :: es) := ⟨helse, nofun, hes⟩
    have hbody := writable_treeEvents body hreg.2 hfull rfl hstop
    rw [memberEvents, List.cons_append, List.append_assoc]
    exact ⟨⟨helse, named_nil⟩, nofun, hbody⟩
  | .branch condition body rest, _, es, hreg, hfull, hes => by
    simp only [membersRegular, Bool.and_eq_true] at hreg
    obtain ⟨⟨_, hbody⟩, hrest⟩ := hreg
    rw [membersFull, Bool.and_eq_true] at hfull
    have hmore := writable_memberEvents "elsif" (by decide) rest hrest hfull.2 hes
    have hstop : Writable (.stop tag :: (memberEvents "elsif" rest ++ es)) := ⟨htag, nofun, hmore⟩
    have hall := writable_treeEvents body hbody hfull.1 rfl hstop
    rw [memberEvents, List.cons_append, List.append_assoc, List.cons_append]
    exact ⟨⟨htag, named_conditionAttributes condition⟩, nofun, hall⟩

end

/-! ## Looking for a further member -/

/-- Whether white space and a further member of a chain stand in front. -/
def opensMember : List Event → Bool
  | [] => false
  | .text s :: es => Text.allBlank s.toList && opensMember es
  | .start name _ _ :: _ => name == "elsif" || name == "else"
  | .stop _ :: _ => false

theorem nextMember?_eq_none {es : List Located} (h : opensMember (es.map (·.event)) = false) :
    nextMember? es = none := by
  induction es with
  | nil => rw [nextMember?]
  | cons e r ih =>
    rw [List.map_cons] at h
    cases he : e.event with
    | text s =>
      rw [he, opensMember, Bool.and_eq_false_iff] at h
      simp only [nextMember?, he]
      rcases h with h | h
      · rw [if_neg (by rw [h]; decide)]
      · rw [ih h, Option.map_none, ite_self]
    | start name attributes empty =>
      rw [he, opensMember, Bool.or_eq_false_iff, beq_eq_false_iff_ne, beq_eq_false_iff_ne] at h
      simp only [nextMember?, he]
      rw [if_neg (not_or.mpr h)]
    | stop name => simp only [nextMember?, he]

theorem opensMember_treeEvents {scope : Scope} {nodes : List Node}
    (h : isRegular scope nodes = true) (parent : String) (after : List Event) :
    opensMember (treeEvents nodes ++ .stop parent :: after) = false := by
  induction nodes with
  | nil => rfl
  | cons n ns ih =>
    simp only [isRegular, Bool.and_eq_true] at h
    cases n with
    | text s =>
      show (Text.allBlank s.toList && opensMember (treeEvents ns ++ _)) = false
      rw [ih h.2, Bool.and_false]
    | expand name sep => rfl
    | chain members =>
      cases members with
      | nothing => simp [nodeRegular, membersRegular] at h
      | otherwise body => simp [nodeRegular, membersRegular] at h
      | branch condition body rest => rfl

/-! ## Reading nodes -/

theorem condition_conditionAttributes {c : Option String}
    (hc : c.all (fun c => !Text.allBlank c.toList) = true) (tag : String) (here : List Char) :
    condition tag here none (conditionAttributes c) = .ok c := by
  cases c with
  | none => rfl
  | some c =>
    have hblank : ¬ Text.allBlank c.toList = true := by simpa using hc
    rw [conditionAttributes, condition, if_neg (by decide), if_neg hblank, condition]

theorem expansionName?_colon {name : String} (h : Placeholder.isName name.toList = true) :
    expansionName? (":" ++ name) = some name := by
  have hlist : (":" ++ name).toList = ':' :: name.toList := by simp
  have hvisible : ∀ c ∈ ':' :: name.toList, Text.isBlank c = false := by
    intro c hc
    rcases List.mem_cons.mp hc with rfl | hc
    · decide
    · exact Text.isBlank_of_visible (Placeholder.visible_of_isName h c hc)
  rw [expansionName?, hlist, Text.trim_of_not_blank hvisible]
  simp only [if_pos h, String.ofList_toList]

theorem textOnly_text (opened : List Char) {es : List Located} {s : String} {after : List Event}
    (hes : es.map (·.event) = .text s :: .stop "a" :: after) :
    ∃ tail, textOnly opened es = .ok (s, tail) ∧ tail.1.map (·.event) = after := by
  obtain ⟨e, r, rfl, he, hr⟩ := List.map_eq_cons_iff.mp hes
  obtain ⟨e', tail, rfl, he', htail⟩ := List.map_eq_cons_iff.mp hr
  refine ⟨⟨tail, by simp only [List.length_cons]; omega⟩, ?_, htail⟩
  simp [textOnly, he, he']

theorem expansion_colon {name : String} (h : Placeholder.isName name.toList = true) (sep : String)
    (here : List Char) {es : List Located} {after : List Event}
    (hes : es.map (·.event) = .text (":" ++ name) :: .stop "a" :: after) :
    ∃ tail, expansion [("sep", sep)] false here es = .ok (.expand name sep, tail) ∧
      tail.1.map (·.event) = after := by
  obtain ⟨⟨tail, hlen⟩, htext, htail⟩ := textOnly_text here hes
  refine ⟨⟨tail, Nat.le_of_lt hlen⟩, ?_, htail⟩
  simp [expansion, separator, htext, expansionName?_colon h]

/-- In front of the events `after`, the children of `parent` are read as the nodes. -/
def ReadsChildren (parent : String) (scope : Scope) (es : List Located) (nodes : List Node)
    (after : List Event) : Prop :=
  ∀ opened, ∃ tail, children parent opened scope es = .ok (nodes, tail) ∧
    tail.1.map (·.event) = after

section
variable {parent : String} {scope : Scope} {e : Located} {r : List Located} {nodes : List Node}
  {after : List Event}

theorem readsChildren_stop (he : e.event = .stop parent) (hr : r.map (·.event) = after) :
    ReadsChildren parent scope (e :: r) [] after := by
  intro opened
  refine ⟨⟨r, by simp⟩, ?_, hr⟩
  rw [children]
  simp only [he, if_pos]

theorem readsChildren_text {s : String} (he : e.event = .text s)
    (hr : ReadsChildren parent scope r nodes after) :
    ReadsChildren parent scope (e :: r) (consText s nodes) after := by
  intro opened
  obtain ⟨⟨tail, hlen⟩, hchildren, htail⟩ := hr opened
  refine ⟨⟨tail, Nat.lt_succ_of_lt hlen⟩, ?_, htail⟩
  rw [children]
  simp only [he, hchildren]

theorem readsChildren_expansion {attributes : List (String × String)} {empty : Bool} {n : Node}
    {tail : NoMore r} (he : e.event = .start "a" attributes empty)
    (hexpansion : expansion attributes empty e.here r = .ok (n, tail))
    (htail : ReadsChildren parent .implicitBranch tail.1 nodes after) :
    ReadsChildren parent .implicitBranch (e :: r) (n :: nodes) after := by
  intro opened
  obtain ⟨⟨rest, hlen⟩, hchildren, hrest⟩ := htail opened
  have hle := tail.2
  refine ⟨⟨rest, by simp only [List.length_cons]; omega⟩, ?_, hrest⟩
  rw [children]
  simp [he, hexpansion, hchildren]

theorem readsChildren_chain {attributes : List (String × String)} {empty : Bool}
    {c : Option String} {body : List Node} {ms : Members} {inner : NoMore r}
    {outer : NoMore inner.1} (he : e.event = .start "if" attributes empty)
    (hbranch : branch "if" attributes empty e.here r = .ok (c, body, inner))
    (hmembers : members inner.1 = .ok (ms, "", outer))
    (houter : ReadsChildren parent scope outer.1 nodes after) :
    ReadsChildren parent scope (e :: r) (.chain (.branch c body ms) :: nodes) after := by
  intro opened
  obtain ⟨⟨rest, hlen⟩, hchildren, hrest⟩ := houter opened
  have hinner := inner.2
  have houter := outer.2
  refine ⟨⟨rest, by simp only [List.length_cons]; omega⟩, ?_, hrest⟩
  rw [children]
  simp [he, hbranch, hmembers, hchildren]

end

theorem branch_body {tag : String} {c : Option String}
    (hc : c.all (fun c => !Text.allBlank c.toList) = true) (htag : tag = "elsif" → c.isSome = true)
    (here : List Char) {es : List Located} {body : List Node} {after : List Event}
    (hbody : ReadsChildren tag (if c.isNone then .implicitBranch else .body) es body after) :
    ∃ tail, branch tag (conditionAttributes c) false here es = .ok (c, body, tail) ∧
      tail.1.map (·.event) = after := by
  obtain ⟨⟨tail, hlen⟩, hchildren, htail⟩ := hbody here
  refine ⟨⟨tail, Nat.le_of_lt hlen⟩, ?_, htail⟩
  have hcondition : ¬ (tag = "elsif" ∧ c.isNone = true) := by
    rintro ⟨helsif, hnone⟩
    have := htag helsif
    cases c with
    | none => cases this
    | some c => cases hnone
  rw [branch, condition_conditionAttributes hc]
  simp only [if_neg hcondition, Bool.false_eq_true, if_false, hchildren]

theorem members_nothing {es : List Located} (h : opensMember (es.map (·.event)) = false) :
    members es = .ok (.nothing, "", ⟨es, Nat.le_refl _⟩) := by
  rw [members, nextMember?_eq_none h]

section
variable {e : Located} {r : List Located} {body : List Node} {after : List Event}

theorem members_otherwise (he : e.event = .start "else" [] false)
    (hbody : ReadsChildren "else" .body r body after) :
    ∃ tail, members (e :: r) = .ok (.otherwise body, "", tail) ∧ tail.1.map (·.event) = after := by
  obtain ⟨⟨tail, hlen⟩, hchildren, htail⟩ := hbody e.here
  refine ⟨⟨tail, by simp only [List.length_cons]; omega⟩, ?_, htail⟩
  rw [members]
  simp [nextMember?, he, hchildren]

theorem members_branch {attributes : List (String × String)} {empty : Bool} {c : Option String}
    {rest : Members} {inner : NoMore r} (he : e.event = .start "elsif" attributes empty)
    (hbranch : branch "elsif" attributes empty e.here r = .ok (c, body, inner))
    (hmembers : ∃ tail, members inner.1 = .ok (rest, "", tail) ∧ tail.1.map (·.event) = after) :
    ∃ tail, members (e :: r) = .ok (.branch c body rest, "", tail) ∧
      tail.1.map (·.event) = after := by
  obtain ⟨⟨tail, hlen⟩, hmore, htail⟩ := hmembers
  have hinner := inner.2
  refine ⟨⟨tail, by simp only [List.length_cons]; omega⟩, ?_, htail⟩
  rw [members]
  simp [nextMember?, he, hbranch, hmore]

end

theorem consText_of_not_text (s : String) {nodes : List Node}
    (h : nodes.head?.any isText = false) : consText s nodes = .text s :: nodes := by
  cases nodes with
  | nil => rfl
  | cons n ns =>
    cases n with
    | text t => cases h
    | expand name sep => rfl
    | chain members => rfl

mutual

theorem children_treeEvents : (nodes : List Node) → {scope : Scope} → (parent : String) →
    {es : List Located} → {after : List Event} → isRegular scope nodes = true →
    es.map (·.event) = treeEvents nodes ++ .stop parent :: after →
    ReadsChildren parent scope es nodes after
  | [], _, parent, es, after, _, hes => by
    obtain ⟨e, r, rfl, he, hr⟩ := List.map_eq_cons_iff.mp hes
    exact readsChildren_stop he hr
  | .text s :: ns, scope, parent, es, after, hreg, hes => by
    simp only [isRegular, isText, Bool.true_and, Bool.and_eq_true, Bool.not_eq_true'] at hreg
    obtain ⟨e, r, rfl, he, hr⟩ := List.map_eq_cons_iff.mp hes
    -- The nodes behind a text begin with none, so that nothing joins it.
    rw [← consText_of_not_text s hreg.1.2]
    exact readsChildren_text he (children_treeEvents ns parent hreg.2 hr)
  | .expand name sep :: ns, scope, parent, es, after, hreg, hes => by
    simp only [isRegular, nodeRegular, Bool.and_eq_true, decide_eq_true_eq] at hreg
    obtain ⟨⟨⟨rfl, hname⟩, _⟩, hns⟩ := hreg
    obtain ⟨e, r, rfl, he, hr⟩ := List.map_eq_cons_iff.mp hes
    obtain ⟨tail, hexpansion, htail⟩ := expansion_colon hname sep e.here hr
    exact readsChildren_expansion he hexpansion (children_treeEvents ns parent hns htail)
  | .chain (.branch c body rest) :: ns, scope, parent, es, after, hreg, hes => by
    simp only [isRegular, nodeRegular, membersRegular, Bool.and_eq_true] at hreg
    obtain ⟨⟨⟨⟨⟨_, hc⟩, hbody⟩, hrest⟩, _⟩, hns⟩ := hreg
    obtain ⟨e, r, rfl, he, hr⟩ := List.map_eq_cons_iff.mp hes
    have hr' : r.map (·.event) = treeEvents body ++ .stop "if" ::
        (memberEvents "elsif" rest ++ (treeEvents ns ++ .stop parent :: after)) := by
      rw [hr]; simp
    -- The first body, the other members and the other nodes, each in front of what is left.
    obtain ⟨inner, hbranch, hinner⟩ := branch_body hc (by simp) e.here
      (children_treeEvents body "if" hbody hr')
    obtain ⟨outer, hmembers, houter⟩ := members_memberEvents rest hrest hinner
      (opensMember_treeEvents hns parent after)
    exact readsChildren_chain he hbranch hmembers (children_treeEvents ns parent hns houter)
  | .chain .nothing :: _, _, _, _, _, hreg, _ => by
    simp [isRegular, nodeRegular, membersRegular] at hreg
  | .chain (.otherwise _) :: _, _, _, _, _, hreg, _ => by
    simp [isRegular, nodeRegular, membersRegular] at hreg

theorem members_memberEvents : (ms : Members) → {es : List Located} → {after : List Event} →
    membersRegular false ms = true → es.map (·.event) = memberEvents "elsif" ms ++ after →
    opensMember after = false →
    ∃ tail, members es = .ok (ms, "", tail) ∧ tail.1.map (·.event) = after
  | .nothing, es, after, _, hes, hafter =>
    ⟨_, members_nothing (by rw [hes]; exact hafter), hes⟩
  | .otherwise body, es, after, hreg, hes, _ => by
    rw [membersRegular, Bool.and_eq_true] at hreg
    obtain ⟨e, r, rfl, he, hr⟩ := List.map_eq_cons_iff.mp hes
    have hr' : r.map (·.event) = treeEvents body ++ .stop "else" :: after := by
      rw [hr]; simp
    exact members_otherwise he (children_treeEvents body "else" hreg.2 hr')
  | .branch c body rest, es, after, hreg, hes, hafter => by
    simp only [membersRegular, Bool.and_eq_true, Bool.false_or] at hreg
    obtain ⟨⟨⟨hsome, hc⟩, hbody⟩, hrest⟩ := hreg
    obtain ⟨e, r, rfl, he, hr⟩ := List.map_eq_cons_iff.mp hes
    have hr' : r.map (·.event) = treeEvents body ++ .stop "elsif" ::
        (memberEvents "elsif" rest ++ after) := by
      rw [hr]; simp
    obtain ⟨inner, hbranch, hinner⟩ := branch_body hc (fun _ => hsome) e.here
      (children_treeEvents body "elsif" hbody hr')
    exact members_branch he hbranch (members_memberEvents rest hrest hinner hafter)

end

/-! ## Templates -/

theorem writable_documentEvents {root : String} (hroot : isTagName root.toList = true)
    {nodes : List Node} (hreg : isRegular .root nodes = true) (hfull : textsFull nodes = true) :
    Writable (documentEvents root nodes) := by
  have hstop : Writable [.stop root] := ⟨hroot, nofun, trivial⟩
  exact ⟨⟨hroot, named_nil⟩, nofun, writable_treeEvents nodes hreg hfull rfl hstop⟩

theorem ofEvents_documentEvents {root : String} {nodes : List Node}
    (hreg : isRegular .root nodes = true) {es : List Located}
    (hes : es.map (·.event) = documentEvents root nodes) : ofEvents es = .ok nodes := by
  obtain ⟨e, r, rfl, he, hr⟩ := List.map_eq_cons_iff.mp hes
  obtain ⟨tail, hchildren, htail⟩ := children_treeEvents nodes root hreg hr e.here
  simp only [ofEvents, skipBlank, he, Bool.false_eq_true, if_false, hchildren, Except.map,
    List.map_eq_nil_iff.mp htail]

theorem read_write (q : Quote) {root : String} (hroot : isTagName root.toList = true)
    {nodes : List Node} (hreg : isRegular .root nodes = true) (hfull : textsFull nodes = true) :
    read (write q root nodes).toList = .ok nodes := by
  obtain ⟨es, hevents, hes⟩ := events_write q (writable_documentEvents hroot hreg hfull)
  rw [write, String.toList_ofList, read, hevents]
  exact ofEvents_documentEvents hreg hes

/-- Every template is read back from its text: nodes that obey the rules, without an empty text, are
what their text parses to. -/
theorem parse_write (q : Quote) {root : String} (hroot : isTagName root.toList = true)
    {nodes : List Node} (hreg : isRegular .root nodes = true) (hfull : textsFull nodes = true) :
    parse (write q root nodes) = .ok nodes := by
  rw [parse, read_write q hroot hreg hfull]

/-- Markup in a text, in a condition and in a separator, a chain in a branch, a chain behind a chain
and behind white space, and a root element called like a branch. -/
theorem parse_write_nested_chains :
    parse (write .double "if"
      [.text "SELECT '&lt;' < ]]> & ",
        .chain (.branch none [.text " id IN (", .expand "ids" " <&'", .text ")"]
          (.branch (some "$n < 1 & $s = '&amp;'")
            [.chain (.branch (some "$m") [.text " "] (.branch (some "1") [] .nothing))]
            (.otherwise [.text "<else/>"]))),
        .chain (.branch none [] .nothing), .text " \n ", .chain (.branch (some "2") [] .nothing)]) =
    .ok [.text "SELECT '&lt;' < ]]> & ",
        .chain (.branch none [.text " id IN (", .expand "ids" " <&'", .text ")"]
          (.branch (some "$n < 1 & $s = '&amp;'")
            [.chain (.branch (some "$m") [.text " "] (.branch (some "1") [] .nothing))]
            (.otherwise [.text "<else/>"]))),
        .chain (.branch none [] .nothing), .text " \n ", .chain (.branch (some "2") [] .nothing)] :=
  parse_write .double (by decide) (by decide +kernel) (by decide +kernel)

example : write .single "t" [.text "a < b", .chain (.branch (some "$n < 'x'") [] .nothing)] =
    "<t>a &lt; b<if c='$n &lt; &apos;x&apos;'></if></t>" := by decide +kernel

end SqlTemplate.Template
