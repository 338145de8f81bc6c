import SqlTemplate.Proofs.Template.Hole
/-!
Exchanges at the end of the signs of a template.

Signs that begin with a chain can be exchanged for signs that give the same chain with other white space
behind it. The nodes then differ at a hole, or the signs are left over for what is read next. What is
proved:
  1. `Lifted.text` to `Lifted.otherwise`: what each rule derives, before and after the exchange.
  2. `Move.lift`: so whatever is derived changes in the white space behind the chain only.
  3. `Move.lift_document`: so does a document, if the chain stands in an element.
-/

namespace SqlTemplate.Template

/-- Signs that begin with a chain and have white space behind it, and signs that give the same chain
with any white space behind it. The members of the chain have a property. -/
structure Move where
  signs : List Sign
  moved : String → List Sign
  gap : String
  property : Members → Prop
  opens : ∃ attributes inside, signs = .opening "if" attributes :: inside
  opens_moved : ∀ g, ∃ attributes inside, moved g = .opening "if" attributes :: inside
  reads : ∀ {parent : String} {scope : Scope} {ns : List Node} {rest : List Sign},
    Derives (.children parent scope) signs .nothing ns rest →
    ∃ members after, property members ∧ ns = .chain members :: gapped gap after ∧ ∀ g,
      Derives (.children parent scope) (moved g) .nothing (.chain members :: gapped g after) rest

/-- What is derived when the signs of a move at the end are exchanged: they are not read and left over,
or the chain is among the nodes or in the members. -/
inductive Lifted (move : Move) (place : Place) (before : List Sign) (ms : Members) (ns : List Node)
    (rest : List Sign) : Prop
  | unread (more : List Sign) (hrest : rest = more ++ move.signs)
      (h : ∀ g, Derives place (before ++ move.moved g) ms ns (more ++ move.moved g))
  | nodes (hole : Hole) (members : Members) (after : List Node) (hmembers : move.property members)
      (hns : ns = hole.fill (.chain members :: gapped move.gap after))
      (h : ∀ g, Derives place (before ++ move.moved g) ms
        (hole.fill (.chain members :: gapped g after)) rest)
  | members (slot : Slot) (members : Members) (after : List Node) (hmembers : move.property members)
      (hms : ms = slot.fill (.chain members :: gapped move.gap after))
      (h : ∀ g, Derives place (before ++ move.moved g)
        (slot.fill (.chain members :: gapped g after)) ns rest)

/-! ## Nodes in front of a hole -/

def Hole.behind (n : Node) : Hole → Hole
  | .here before => .here (n :: before)
  | .among before slot after => .among (n :: before) slot after

def Hole.behindText (s : String) : Hole → Hole
  | .here before => .here (consText s before)
  | .among before slot after => .among (consText s before) slot after

def Hole.behindGap (s : String) (hole : Hole) : Hole := if s.isEmpty then hole else hole.behindText s

theorem Hole.fill_behind (n : Node) (hole : Hole) (ns : List Node) :
    (hole.behind n).fill ns = n :: hole.fill ns := by
  cases hole <;> rfl

theorem consText_append_chain (s : String) (before : List Node) (members : Members)
    (after : List Node) : consText s (before ++ .chain members :: after) =
      consText s before ++ .chain members :: after := by
  cases before with
  | nil => rfl
  | cons n before => cases n <;> rfl

section
variable (s : String) (hole : Hole) (members : Members) (after : List Node)

theorem Hole.fill_behindText : (hole.behindText s).fill (.chain members :: after) =
    consText s (hole.fill (.chain members :: after)) := by
  cases hole with
  | here before => exact (consText_append_chain s before members after).symm
  | among before slot more => exact (consText_append_chain s before _ more).symm

theorem Hole.fill_behindGap : (hole.behindGap s).fill (.chain members :: after) =
    gapped s (hole.fill (.chain members :: after)) := by
  unfold behindGap gapped
  split
  · rfl
  · exact hole.fill_behindText s members after

end

theorem Slot.fill_ne_nothing (slot : Slot) (ns : List Node) : slot.fill ns ≠ .nothing := by
  cases slot <;> nofun

/-! ## An exchange in each rule -/

theorem continuesChain_opening (before : List Sign) (name : String)
    (attributes attributes' : List (String × String)) (inside inside' : List Sign) :
    continuesChain (before ++ .opening name attributes :: inside) =
      continuesChain (before ++ .opening name attributes' :: inside') := by
  induction before with
  | nil => rfl
  | cons s before ih =>
    cases s with
    | text w => rw [List.cons_append, List.cons_append, continuesChain, continuesChain, ih]
    | opening => rfl
    | closing => rfl

section
variable {move : Move} {parent : String} {scope : Scope} {before rest : List Sign} {ms : Members}
  {ns : List Node}

theorem Move.continuesChain_eq (move : Move) (before : List Sign) (g : String) :
    continuesChain (before ++ move.moved g) = continuesChain (before ++ move.signs) := by
  obtain ⟨attributes, inside, hsigns⟩ := move.opens
  obtain ⟨attributes', inside', hmoved⟩ := move.opens_moved g
  rw [hsigns, hmoved]
  exact continuesChain_opening _ _ _ _ _ _

theorem Move.split_cons (move : Move) {s : Sign} {all before : List Sign}
    (hall : s :: all = before ++ move.signs) (hs : ∀ attributes, s ≠ .opening "if" attributes) :
    ∃ before', before = s :: before' ∧ all = before' ++ move.signs := by
  cases before with
  | nil =>
    obtain ⟨attributes, inside, hsigns⟩ := move.opens
    rw [List.nil_append, hsigns] at hall
    exact absurd (List.cons.inj hall).1 (hs attributes)
  | cons b before =>
    obtain ⟨rfl, htail⟩ := List.cons.inj hall
    exact ⟨before, rfl, htail⟩

theorem Move.split_texts (move : Move) {ws : List String} {name : String} {all before : List Sign}
    (hall : ws.map .text ++ .closing name :: all = before ++ move.signs) :
    ∃ before', before = ws.map .text ++ .closing name :: before' ∧ all = before' ++ move.signs := by
  induction ws generalizing before with
  | nil => exact move.split_cons hall fun _ => nofun
  | cons w ws ih =>
    obtain ⟨before, rfl, htail⟩ := move.split_cons hall fun _ => nofun
    obtain ⟨before, rfl, hmore⟩ := ih htail
    exact ⟨before, rfl, hmore⟩

theorem Lifted.text (s : String)
    (h : Lifted move (.children parent scope) before .nothing ns rest) :
    Lifted move (.children parent scope) (.text s :: before) .nothing (consText s ns) rest := by
  cases h with
  | unread more hrest h => exact .unread more hrest fun g => .text (h g)
  | nodes hole members after hmembers hns h =>
    refine .nodes (hole.behindText s) members after hmembers ?_ fun g => ?_
    · rw [hns, hole.fill_behindText]
    · rw [hole.fill_behindText]
      exact .text (h g)
  | members slot members after _ hms => exact absurd hms.symm (slot.fill_ne_nothing _)

theorem Lifted.expansion {sep name : String} {attributes : List (String × String)}
    {ws : List String} (hsep : separator [] defaultSeparator attributes = .ok sep)
    (hname : expansionName? (String.join ws) = some name)
    (h : Lifted move (.children parent .implicitBranch) before .nothing ns rest) :
    Lifted move (.children parent .implicitBranch)
      (.opening "a" attributes :: (ws.map .text ++ .closing "a" :: before)) .nothing
      (.expand name sep :: ns) rest := by
  have hexpansion {tail : List Sign} {ns' : List Node} {rest' : List Sign}
      (h : Derives (.children parent .implicitBranch) (before ++ tail) .nothing ns' rest') :
      Derives (.children parent .implicitBranch)
        (.opening "a" attributes :: (ws.map .text ++ .closing "a" :: before) ++ tail) .nothing
        (.expand name sep :: ns') rest' := by
    rw [List.cons_append, List.append_assoc]
    exact .expansion hsep hname h
  cases h with
  | unread more hrest h => exact .unread more hrest fun g => hexpansion (h g)
  | nodes hole members after hmembers hns h =>
    refine .nodes (hole.behind (.expand name sep)) members after hmembers ?_ fun g => ?_
    · rw [hns, hole.fill_behind]
    · rw [hole.fill_behind]
      exact hexpansion (h g)
  | members slot members after _ hms => exact absurd hms.symm (slot.fill_ne_nothing _)

theorem Lifted.chain {attributes : List (String × String)} {c : Option String}
    {body : List Node} {more : List Sign} (hc : condition "if" [] none attributes = .ok c)
    (hbody : Lifted move (.children "if" (bodyScope c)) before .nothing body more)
    (hderives : Derives (.chain parent scope) more ms ns rest)
    (h : ∀ before, more = before ++ move.signs → Lifted move (.chain parent scope) before ms ns rest) :
    Lifted move (.children parent scope) (.opening "if" attributes :: before) .nothing
      (.chain (.branch c body ms) :: ns) rest := by
  cases hbody with
  | unread more hmore hbody =>
    cases h more hmore with
    | unread left hrest h => exact .unread left hrest fun g => .chain hc (hbody g) (h g)
    | nodes hole members after hmembers hns h =>
      refine .nodes (hole.behind (.chain (.branch c body ms))) members after hmembers ?_ fun g => ?_
      · rw [hns, hole.fill_behind]
      · rw [hole.fill_behind]
        exact .chain hc (hbody g) (h g)
    | members slot members after hmembers hms h =>
      refine .nodes (.among [] (.later c body slot) ns) members after hmembers ?_ fun g => ?_
      · rw [hms]
        rfl
      · exact .chain hc (hbody g) (h g)
  | nodes hole members after hmembers hns h =>
    refine .nodes (.among [] (.first c hole ms) ns) members after hmembers ?_ fun g => ?_
    · rw [hns]
      rfl
    · exact .chain hc (h g) hderives
  | members slot members after _ hms => exact absurd hms.symm (slot.fill_ne_nothing _)

theorem Lifted.close (hend : continuesChain (before ++ move.signs) = false)
    (h : Lifted move (.children parent scope) before .nothing ns rest) :
    Lifted move (.chain parent scope) before .nothing ns rest := by
  have hend (g : String) : continuesChain (before ++ move.moved g) = false := by
    rw [move.continuesChain_eq, hend]
  cases h with
  | unread more hrest h => exact .unread more hrest fun g => .close (hend g) (h g)
  | nodes hole members after hmembers hns h =>
    exact .nodes hole members after hmembers hns fun g => .close (hend g) (h g)
  | members slot members after _ hms => exact absurd hms.symm (slot.fill_ne_nothing _)

theorem Lifted.gap {s : String} (hs : Text.allBlank s.toList = true)
    (hmore : continuesChain (before ++ move.signs) = true)
    (h : Lifted move (.chain parent scope) before ms ns rest) :
    Lifted move (.chain parent scope) (.text s :: before) ms (gapped s ns) rest := by
  have hmore (g : String) : continuesChain (before ++ move.moved g) = true := by
    rw [move.continuesChain_eq, hmore]
  cases h with
  | unread more hrest h => exact .unread more hrest fun g => .gap hs (hmore g) (h g)
  | nodes hole members after hmembers hns h =>
    refine .nodes (hole.behindGap s) members after hmembers ?_ fun g => ?_
    · rw [hns, hole.fill_behindGap]
    · rw [hole.fill_behindGap]
      exact .gap hs (hmore g) (h g)
  | members slot members after hmembers hms h =>
    exact .members slot members after hmembers hms fun g => .gap hs (hmore g) (h g)

theorem Lifted.branch {attributes : List (String × String)} {c : String} {body : List Node}
    {more : List Sign} (hc : condition "elsif" [] none attributes = .ok (some c))
    (hbody : Lifted move (.children "elsif" .body) before .nothing body more)
    (hderives : Derives (.chain parent scope) more ms ns rest)
    (h : ∀ before, more = before ++ move.signs → Lifted move (.chain parent scope) before ms ns rest) :
    Lifted move (.chain parent scope) (.opening "elsif" attributes :: before)
      (.branch (some c) body ms) ns rest := by
  cases hbody with
  | unread more hmore hbody =>
    cases h more hmore with
    | unread left hrest h => exact .unread left hrest fun g => .branch hc (hbody g) (h g)
    | nodes hole members after hmembers hns h =>
      exact .nodes hole members after hmembers hns fun g => .branch hc (hbody g) (h g)
    | members slot members after hmembers hms h =>
      refine .members (.later (some c) body slot) members after hmembers ?_ fun g => ?_
      · rw [hms]
        rfl
      · exact .branch hc (hbody g) (h g)
  | nodes hole members after hmembers hns h =>
    refine .members (.first (some c) hole ms) members after hmembers ?_ fun g => ?_
    · rw [hns]
      rfl
    · exact .branch hc (h g) hderives
  | members slot members after _ hms => exact absurd hms.symm (slot.fill_ne_nothing _)

theorem Lifted.otherwise {body : List Node} {more : List Sign}
    (hbody : Lifted move (.children "else" .body) before .nothing body more)
    (hderives : Derives (.children parent scope) more .nothing ns rest)
    (h : ∀ before, more = before ++ move.signs →
      Lifted move (.children parent scope) before .nothing ns rest) :
    Lifted move (.chain parent scope) (.opening "else" [] :: before) (.otherwise body) ns rest := by
  cases hbody with
  | unread more hmore hbody =>
    cases h more hmore with
    | unread left hrest h => exact .unread left hrest fun g => .otherwise (hbody g) (h g)
    | nodes hole members after hmembers hns h =>
      exact .nodes hole members after hmembers hns fun g => .otherwise (hbody g) (h g)
    | members slot members after _ hms => exact absurd hms.symm (slot.fill_ne_nothing _)
  | nodes hole members after hmembers hns h =>
    refine .members (.otherwise hole) members after hmembers ?_ fun g => ?_
    · rw [hns]
      rfl
    · exact .otherwise (h g) hderives
  | members slot members after _ hms => exact absurd hms.symm (slot.fill_ne_nothing _)

/-! ## Exchanges at any depth -/

theorem Move.lift (move : Move) {place : Place} {all : List Sign}
    (h : Derives place all ms ns rest) {before : List Sign} (hall : all = before ++ move.signs) :
    Lifted move place before ms ns rest := by
  induction h generalizing before with
  | stop =>
    obtain ⟨before, rfl, hrest⟩ := move.split_cons hall fun _ => nofun
    exact .unread before hrest fun g => .stop
  | text _ ih =>
    obtain ⟨before, rfl, htail⟩ := move.split_cons hall fun _ => nofun
    exact (ih htail).text _
  | expansion hsep hname _ ih =>
    obtain ⟨before, rfl, htail⟩ := move.split_cons hall (by simp)
    obtain ⟨before, rfl, hmore⟩ := move.split_texts htail
    exact (ih hmore).expansion hsep hname
  | chain hc hbody h ihbody ih =>
    cases before with
    | nil =>
      -- The chain is the one that the signs begin with.
      have hchain := Derives.chain hc hbody h
      rw [hall] at hchain
      obtain ⟨members, after, hmembers, hns, hmoved⟩ := move.reads hchain
      exact .nodes (.here []) members after hmembers hns hmoved
    | cons s before =>
      obtain ⟨rfl, htail⟩ := List.cons.inj hall
      exact (ihbody htail).chain hc h fun _ => ih
  | close hend _ ih =>
    rw [hall] at hend
    exact (ih hall).close hend
  | gap hs hmore _ ih =>
    obtain ⟨before, rfl, htail⟩ := move.split_cons hall fun _ => nofun
    rw [htail] at hmore
    exact (ih htail).gap hs hmore
  | branch hc _ h ihbody ih =>
    obtain ⟨before, rfl, htail⟩ := move.split_cons hall (by simp)
    exact (ihbody htail).branch hc h fun _ => ih
  | otherwise _ h ihbody ih =>
    obtain ⟨before, rfl, htail⟩ := move.split_cons hall (by simp)
    exact (ihbody htail).otherwise h fun _ => ih

theorem opening_not_mem_texts (name : String) (attributes : List (String × String))
    (ws : List String) : Sign.opening name attributes ∉ ws.map Sign.text := by
  simp

/-- The white space behind the chain is all that changes in a document, if an element has been opened in
front of the chain. -/
theorem Move.lift_document (move : Move) (h : Document (before ++ move.signs) ns)
    (hopening : ∃ name attributes, .opening name attributes ∈ before) :
    ∃ (hole : Hole) (members : Members) (after : List Node), move.property members ∧
      ns = hole.fill (.chain members :: gapped move.gap after) ∧
      ∀ g, Document (before ++ move.moved g) (hole.fill (.chain members :: gapped g after)) := by
  obtain ⟨leading, trailing, name, attributes, inside, hall, hinside, hleading, htrailing⟩ := h
  obtain ⟨name', attributes', hopening⟩ := hopening
  -- The element is the one that has been opened.
  have hbefore : ∃ before', before = leading.map .text ++ .opening name attributes :: before' ∧
      inside = before' ++ move.signs := by
    rcases List.append_eq_append_iff.mp hall with ⟨ts, htexts, _⟩ | ⟨ts, rfl, hmore⟩
    · have hmem := List.mem_append_left ts hopening
      rw [← htexts] at hmem
      exact absurd hmem (opening_not_mem_texts _ _ _)
    · cases ts with
      | nil =>
        rw [List.append_nil] at hopening
        exact absurd hopening (opening_not_mem_texts _ _ _)
      | cons s ts =>
        obtain ⟨rfl, hinside⟩ := List.cons.inj hmore
        exact ⟨ts, rfl, hinside⟩
  obtain ⟨before, rfl, rfl⟩ := hbefore
  cases move.lift hinside rfl with
  | unread more hrest =>
    obtain ⟨attributes, inside, hsigns⟩ := move.opens
    have hmem : Sign.opening "if" attributes ∈ more ++ move.signs := by
      rw [hsigns]
      exact List.mem_append_right _ (List.mem_cons_self)
    rw [← hrest] at hmem
    exact absurd hmem (opening_not_mem_texts _ _ _)
  | nodes hole members after hmembers hns h =>
    refine ⟨hole, members, after, hmembers, hns, fun g => ?_⟩
    refine ⟨leading, trailing, name, attributes, before ++ move.moved g, ?_, h g, hleading, htrailing⟩
    rw [List.append_assoc, List.cons_append]
  | members slot members after _ hms => exact absurd hms.symm (slot.fill_ne_nothing _)

end

end SqlTemplate.Template
