import SqlTemplate.Proofs.Template.Spelling
/-!
Elements of a template and the chains that they write.

The members of a chain are elements with white space between them, and the rules put that white space
behind the chain. What is proved:
  1. `Derives.inside`: the rules read an element up to its own closing, whatever follows it. By
     `Inside.of_closing`, `Inside.of_text` and `Inside.of_opening` this is one step for each rule.
  2. `Gathers.branch`, `Gathers.otherwise`: so a further member, with the white space in front of it,
     gives the same member as without, and the white space goes in front of what follows the chain.
  3. `FurtherMembers.gathers`: so do all the members that follow the first one.
-/

namespace SqlTemplate.Template

/-- What stands between an opening and its closing, and the closing. -/
inductive Inside : List Sign → Prop
  | stop (name : String) : Inside [.closing name]
  | text (s : String) {ss : List Sign} (h : Inside ss) : Inside (.text s :: ss)
  | element (name : String) (attributes : List (String × String)) {inner ss : List Sign}
      (hinner : Inside inner) (h : Inside ss) : Inside (.opening name attributes :: (inner ++ ss))

def ElementSigns (name : String) (ss : List Sign) : Prop :=
  ∃ attributes inside, ss = .opening name attributes :: inside ∧ Inside inside

/-- A text is an element with a name. -/
def IsElement (name : String) (source : String) : Prop :=
  ∃ ss, signs? source.toList = some ss ∧ ElementSigns name ss

/-! ## One element -/

theorem Inside.continuesChain_eq {as : List Sign} (h : Inside as) (tail tail' : List Sign) :
    continuesChain (as ++ tail) = continuesChain (as ++ tail') := by
  induction h with
  | stop name => rfl
  | text s _ ih => rw [List.cons_append, List.cons_append, continuesChain, continuesChain, ih]
  | element => rfl

section
variable {as ss tail : List Sign}

theorem Inside.of_closing (h : Inside as) {name : String} (heq : .closing name :: ss = as ++ tail) :
    as = [.closing name] ∧ ss = tail := by
  cases h with
  | stop =>
    cases heq
    exact ⟨rfl, rfl⟩
  | text => cases heq
  | element => cases heq

theorem Inside.of_text (h : Inside as) {s : String} (heq : .text s :: ss = as ++ tail) :
    ∃ as', as = .text s :: as' ∧ Inside as' ∧ ss = as' ++ tail := by
  cases h with
  | stop => cases heq
  | text s h =>
    obtain ⟨hs, htail⟩ := List.cons.inj heq
    cases hs
    exact ⟨_, rfl, h, htail⟩
  | element => cases heq

theorem Inside.of_opening (h : Inside as) {name : String} {attributes : List (String × String)}
    (heq : .opening name attributes :: ss = as ++ tail) :
    ∃ inner as', as = .opening name attributes :: (inner ++ as') ∧ Inside inner ∧ Inside as' ∧
      ss = inner ++ (as' ++ tail) := by
  cases h with
  | stop => cases heq
  | text => cases heq
  | element name attributes hinner h =>
    rw [List.cons_append, List.append_assoc] at heq
    obtain ⟨hopening, htail⟩ := List.cons.inj heq
    cases hopening
    exact ⟨_, _, rfl, hinner, h, htail⟩

theorem Inside.eq_texts (h : Inside as) {ws : List String} {name : String}
    (heq : ws.map .text ++ .closing name :: ss = as ++ tail) :
    as = ws.map .text ++ [.closing name] ∧ ss = tail := by
  induction ws generalizing as with
  | nil => exact h.of_closing heq
  | cons w ws ih =>
    rw [List.map_cons, List.cons_append] at heq
    obtain ⟨as, rfl, h, htail⟩ := h.of_text heq
    obtain ⟨rfl, hss⟩ := ih h htail
    exact ⟨rfl, hss⟩

end

/-- The rules read an element up to its own closing, whatever follows it. -/
theorem Derives.inside {place : Place} {ss rest : List Sign} {ms : Members} {ns : List Node}
    (h : Derives place ss ms ns rest) {as tail : List Sign} (has : Inside as) (hss : ss = as ++ tail) :
    rest = tail ∧ ∀ tail', Derives place (as ++ tail') ms ns tail' := by
  induction h generalizing as tail with
  | stop =>
    obtain ⟨rfl, hrest⟩ := has.of_closing hss
    exact ⟨hrest, fun _ => .stop⟩
  | text _ ih =>
    obtain ⟨as, rfl, has, htail⟩ := has.of_text hss
    obtain ⟨rfl, hall⟩ := ih has htail
    exact ⟨rfl, fun tail' => .text (hall tail')⟩
  | expansion hsep hname _ ih =>
    obtain ⟨inner, as, rfl, hinner, hafter, htail⟩ := has.of_opening hss
    obtain ⟨rfl, hmore⟩ := hinner.eq_texts htail
    obtain ⟨rfl, hall⟩ := ih hafter hmore
    refine ⟨rfl, fun tail' => ?_⟩
    have hexpansion := Derives.expansion hsep hname (hall tail')
    simpa using hexpansion
  | chain hc _ _ ihbody ih =>
    obtain ⟨inner, as, rfl, hinner, hafter, htail⟩ := has.of_opening hss
    obtain ⟨hmore, hbody⟩ := ihbody hinner htail
    obtain ⟨rfl, hall⟩ := ih hafter hmore
    refine ⟨rfl, fun tail' => ?_⟩
    rw [List.cons_append, List.append_assoc]
    exact .chain hc (hbody _) (hall tail')
  | close hend _ ih =>
    obtain ⟨rfl, hall⟩ := ih has hss
    refine ⟨rfl, fun tail' => .close ?_ (hall tail')⟩
    rw [has.continuesChain_eq tail' _, ← hss, hend]
  | gap hs hmore _ ih =>
    obtain ⟨as, rfl, has, htail⟩ := has.of_text hss
    obtain ⟨rfl, hall⟩ := ih has htail
    refine ⟨rfl, fun tail' => .gap hs ?_ (hall tail')⟩
    rw [← hmore, htail]
    exact has.continuesChain_eq tail' _
  | branch hc _ _ ihbody ih =>
    obtain ⟨inner, as, rfl, hinner, hafter, htail⟩ := has.of_opening hss
    obtain ⟨hmore, hbody⟩ := ihbody hinner htail
    obtain ⟨rfl, hall⟩ := ih hafter hmore
    refine ⟨rfl, fun tail' => ?_⟩
    rw [List.cons_append, List.append_assoc]
    exact .branch hc (hbody _) (hall tail')
  | otherwise _ _ ihbody ih =>
    obtain ⟨inner, as, rfl, hinner, hafter, htail⟩ := has.of_opening hss
    obtain ⟨hmore, hbody⟩ := ihbody hinner htail
    obtain ⟨rfl, hall⟩ := ih hafter hmore
    refine ⟨rfl, fun tail' => ?_⟩
    rw [List.cons_append, List.append_assoc]
    exact .otherwise (hbody _) (hall tail')

/-! ## The members of a chain -/

/-- Behind a member of a chain, signs give further members, whatever follows the chain. -/
def Gives (ss : List Sign) (ms : Members) : Prop :=
  ∀ (parent : String) (scope : Scope) (after rest : List Sign) (ns : List Node),
    continuesChain after = false → Derives (.children parent scope) after .nothing ns rest →
    Derives (.chain parent scope) (ss ++ after) ms ns rest

/-- Behind a member of a chain, signs with white space are read as signs without it, and the white
space goes in front of what follows the chain. -/
def Gathers (spaced tight : List Sign) (gap : String) : Prop :=
  ∀ (parent : String) (scope : Scope) (after rest : List Sign) (ms : Members) (ns : List Node),
    continuesChain after = false → Derives (.chain parent scope) (spaced ++ after) ms ns rest →
    ∃ ns', ns = gapped gap ns' ∧ Derives (.children parent scope) after .nothing ns' rest ∧
      Gives tight ms

theorem Gathers.nil : Gathers [] [] "" := by
  intro parent scope after rest ms ns hafter h
  rw [List.nil_append] at h
  cases h with
  | close _ h => exact ⟨ns, rfl, h, fun _ _ _ _ _ hafter h => .close hafter h⟩
  | gap hs hmore => rw [continuesChain, hs, hmore] at hafter; cases hafter
  | branch => cases hafter
  | otherwise => cases hafter

theorem Gathers.gap {gap s : String} {spaced tight : List Sign}
    (hgap : Text.allBlank gap.toList = true)
    (hmore : ∀ after, continuesChain (spaced ++ after) = true) (h : Gathers spaced tight s) :
    Gathers (textSigns gap.toList ++ spaced) tight (gap ++ s) := by
  intro parent scope after rest ms ns hafter hns
  have hjoin : String.join (gap.toList.map String.singleton) = gap := by
    rw [join_singletons, String.ofList_toList]
  rw [List.append_assoc, textSigns_eq] at hns
  obtain ⟨ns', hns', rfl⟩ := hns.of_gaps (by rw [hjoin, hgap]) (hmore after)
  obtain ⟨ns'', rfl, hafter', htight⟩ := h _ _ _ _ _ _ hafter hns'
  exact ⟨ns'', by rw [hjoin, gapped_gapped], hafter', htight⟩

theorem ElementSigns.continuesChain {name : String} {ss : List Sign} (h : ElementSigns name ss)
    (hname : name = "elsif" ∨ name = "else") (after : List Sign) :
    continuesChain (ss ++ after) = true := by
  obtain ⟨attributes, inside, rfl, _⟩ := h
  rcases hname with rfl | rfl <;> rfl

theorem Gathers.branch {ss spaced tight : List Sign} {gap : String} (hss : ElementSigns "elsif" ss)
    (h : Gathers spaced tight gap) : Gathers (ss ++ spaced) (ss ++ tight) gap := by
  obtain ⟨attributes, inside, rfl, hinside⟩ := hss
  intro parent scope after rest ms ns hafter hns
  rw [List.append_assoc] at hns
  obtain ⟨c, body, more, members, hc, hbody, hmembers, rfl⟩ := hns.of_elsif
  obtain ⟨rfl, hinner⟩ := hbody.inside hinside rfl
  obtain ⟨ns', hgap, hchildren, hgives⟩ := h _ _ _ _ _ _ hafter hmembers
  refine ⟨ns', hgap, hchildren, fun parent' scope' after' rest' ns'' hafter' hns'' => ?_⟩
  rw [List.append_assoc]
  exact .branch hc (hinner _) (hgives _ _ _ _ _ hafter' hns'')

theorem Gathers.otherwise {ss : List Sign} (hss : ElementSigns "else" ss) : Gathers ss ss "" := by
  obtain ⟨attributes, inside, rfl, hinside⟩ := hss
  intro parent scope after rest ms ns _ hns
  obtain ⟨body, more, rfl, hbody, hchildren, rfl⟩ := hns.of_else
  obtain ⟨rfl, hinner⟩ := hbody.inside hinside rfl
  exact ⟨ns, rfl, hchildren, fun _ _ _ _ _ _ hns' => .otherwise (hinner _) hns'⟩

/-- A member of a chain that is not the first, as it is written: white space, and an element. -/
structure FurtherMember where
  gap : String
  element : String

/-- The members of a chain that follow the first one: branches, and possibly a member without a
condition. -/
inductive FurtherMembers : List FurtherMember → Prop
  | nil : FurtherMembers []
  | branch {m : FurtherMember} {more : List FurtherMember} (hgap : Text.allBlank m.gap.toList = true)
      (helement : IsElement "elsif" m.element) (h : FurtherMembers more) : FurtherMembers (m :: more)
  | otherwise {m : FurtherMember} (hgap : Text.allBlank m.gap.toList = true)
      (helement : IsElement "else" m.element) : FurtherMembers [m]

def spaced (more : List FurtherMember) : String := String.join (more.map fun m => m.gap ++ m.element)

def tight (more : List FurtherMember) : String := String.join (more.map FurtherMember.element)

def gaps (more : List FurtherMember) : String := String.join (more.map FurtherMember.gap)

section
variable (m : FurtherMember) (more : List FurtherMember)

theorem spaced_cons : spaced (m :: more) = m.gap ++ (m.element ++ spaced more) := by
  rw [spaced, List.map_cons, String.join_cons, String.append_assoc, ← spaced]

theorem tight_cons : tight (m :: more) = m.element ++ tight more := by
  rw [tight, List.map_cons, String.join_cons, ← tight]

theorem gaps_cons : gaps (m :: more) = m.gap ++ gaps more := by
  rw [gaps, List.map_cons, String.join_cons, ← gaps]

end

theorem signs?_blank {s : String} (hs : Text.allBlank s.toList = true) :
    signs? s.toList = some (textSigns s.toList) := by
  have hspells {cs : List Char} (hcs : Text.allBlank cs = true) : Spells cs cs := by
    induction cs with
    | nil => exact .nil
    | cons c cs ih =>
      obtain ⟨hc, hcs⟩ : Text.isBlank c = true ∧ Text.allBlank cs = true := by
        simpa [Text.allBlank] using hcs
      refine .plain ?_ ?_ (ih hcs) <;>
      · rintro rfl
        exact absurd hc (by decide)
  have hsigns := signs?_spelling (hspells hs) []
  rwa [List.append_nil, signs?_nil, Option.map_some, List.append_nil] at hsigns

theorem FurtherMembers.blank {more : List FurtherMember} (h : FurtherMembers more) :
    Text.allBlank (gaps more).toList = true := by
  induction h with
  | nil => rfl
  | branch hgap _ _ ih =>
    rw [gaps_cons, allBlank_append, hgap, ih]
    rfl
  | otherwise hgap =>
    rw [gaps_cons, allBlank_append, hgap]
    rfl

/-- The members behind the first one give their members and their white space. -/
theorem FurtherMembers.gathers {more : List FurtherMember} (h : FurtherMembers more) :
    ∃ ss ts, signs? (spaced more).toList = some ss ∧ signs? (tight more).toList = some ts ∧
      Gathers ss ts (gaps more) := by
  have hnil : signs? "".toList = some [] := signs?_nil
  induction h with
  | nil => exact ⟨[], [], hnil, hnil, .nil⟩
  | @branch m more hgap helement _ ih =>
    obtain ⟨es, hes, helement⟩ := helement
    obtain ⟨ss, ts, hss, hts, hgathers⟩ := ih
    have hmore (after : List Sign) : continuesChain ((es ++ ss) ++ after) = true := by
      rw [List.append_assoc]
      exact helement.continuesChain (.inl rfl) _
    rw [spaced_cons, tight_cons, gaps_cons]
    exact ⟨_, _, signs?_both (signs?_blank hgap) (signs?_both hes hss), signs?_both hes hts,
      (hgathers.branch helement).gap hgap hmore⟩
  | @otherwise m hgap helement =>
    obtain ⟨es, hes, helement⟩ := helement
    have hgathers := (Gathers.otherwise helement).gap hgap (helement.continuesChain (.inr rfl))
    rw [spaced_cons, tight_cons, gaps_cons]
    have hes' := signs?_both hes hnil
    rw [List.append_nil] at hes'
    exact ⟨_, _, signs?_both (signs?_blank hgap) hes', hes', hgathers⟩

end SqlTemplate.Template
