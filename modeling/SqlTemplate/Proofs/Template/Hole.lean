import SqlTemplate.Proofs.Placeholder.Collapse
import SqlTemplate.Proofs.Template.EmptyText
/-!
Templates with a hole.

A hole is a place at the end of the nodes of one level of a template, at any depth. What is proved:
  1. `Hole.sameNeeds_fill`: nodes with the same names and the same guard can stand for each other in a
     hole without a change to the names and the guards around it.
  2. `Hole.render_reached`: if the guards on the way to the hole hold, the text of what stands in it is
     a part of the text of the template, and what stands around it does not depend on it.
  3. `Hole.render_unreached`: otherwise the text does not depend on what stands in the hole.
  4. `pruneNodes_gapped_reached`: so the white space behind a chain that is reached stands right behind
     the text of the chain, and is the only difference to the text without it.
-/

namespace SqlTemplate.Template

mutual

/-- A place for the last nodes of a level: behind other nodes, or in a chain among them. -/
inductive Hole where
  | here (before : List Node)
  | among (before : List Node) (slot : Slot) (after : List Node)

/-- A place in the members of a chain: in the body of the first, or in a later one. -/
inductive Slot where
  | first (condition : Option String) (hole : Hole) (rest : Members)
  | otherwise (hole : Hole)
  | later (condition : Option String) (body : List Node) (slot : Slot)

end

mutual

def Hole.fill (ns : List Node) : Hole → List Node
  | .here before => before ++ ns
  | .among before slot after => before ++ .chain (slot.fill ns) :: after

def Slot.fill (ns : List Node) : Slot → Members
  | .first condition hole rest => .branch condition (hole.fill ns) rest
  | .otherwise hole => .otherwise (hole.fill ns)
  | .later condition body slot => .branch condition body (slot.fill ns)

end

mutual

/-- The guards on the way to the hole let it be reached when it is filled with the nodes. -/
def Hole.Reached (values : Context) (repeats : Repeats) (ns : List Node) : Hole → Prop
  | .here _ => True
  | .among _ slot _ => slot.Reached values repeats ns

/-- The chain selects the member with the hole, and the hole is reached in it. -/
def Slot.Reached (values : Context) (repeats : Repeats) (ns : List Node) : Slot → Prop
  | .first condition hole _ =>
    guardHolds values repeats condition (hole.fill ns) = .ok true ∧ hole.Reached values repeats ns
  | .otherwise hole => hole.Reached values repeats ns
  | .later condition body slot =>
    guardHolds values repeats condition body = .ok false ∧ slot.Reached values repeats ns

end

/-! ## Names and guards -/

theorem guardedNames_append (inBranch : Bool) (ns ms : List Node) :
    guardedNames inBranch (ns ++ ms) = guardedNames inBranch ns ++ guardedNames inBranch ms := by
  induction ns with
  | nil => rfl
  | cons n ns ih => rw [List.cons_append, guardedNames, guardedNames, ih, List.append_assoc]

section
variable {values : Context} {repeats : Repeats} {ns ms : List Node} {sql : String}

theorem SameNeeds.prepend (h : SameNeeds values repeats ns ms) (before : List Node) :
    SameNeeds values repeats (before ++ ns) (before ++ ms) where
  names inBranch := by rw [guardedNames_append, guardedNames_append, h.names]
  guard := by
    rw [implicitGuard, implicitGuard, List.all_append, List.all_append]
    exact congrArg _ h.guard

mutual

/-- What stands in a hole matters for the names and the guards around it by its own names and guard
only. -/
theorem Hole.sameNeeds_fill (h : SameNeeds values repeats ns ms) :
    (hole : Hole) → SameNeeds values repeats (hole.fill ns) (hole.fill ms)
  | .here before => h.prepend before
  | .among before slot after => by
    have hchain : SameNeeds values repeats (.chain (slot.fill ns) :: after)
        (.chain (slot.fill ms) :: after) := by
      refine ⟨fun inBranch => ?_, rfl⟩
      rw [guardedNames, guardedNames, nodeNames, nodeNames, slot.memberNames_fill h]
    exact hchain.prepend before

theorem Slot.memberNames_fill (h : SameNeeds values repeats ns ms) :
    (slot : Slot) → memberNames (slot.fill ns) = memberNames (slot.fill ms)
  | .first condition hole rest => by
    rw [Slot.fill, Slot.fill, memberNames, memberNames, (hole.sameNeeds_fill h).names]
  | .otherwise hole => (hole.sameNeeds_fill h).names true
  | .later condition body slot => by
    rw [Slot.fill, Slot.fill, memberNames, memberNames, slot.memberNames_fill h]

end

/-! ## Text -/

theorem render_append (before : List Node) : render values repeats (before ++ ns) =
    (render values repeats before).bind fun s => (render values repeats ns).map (s ++ ·) := by
  induction before with
  | nil => cases h : render values repeats ns <;> simp [render, h, Except.bind, Except.map]
  | cons n before ih =>
    rw [List.cons_append, render, render, ih]
    cases renderNode values repeats n with
    | error e => rfl
    | ok a =>
      cases render values repeats before with
      | error e => rfl
      | ok b => cases render values repeats ns <;> simp [Except.bind, Except.map, String.append_assoc]

theorem render_append_eq_ok_iff {before : List Node} :
    render values repeats (before ++ ns) = .ok sql ↔
      ∃ s t, render values repeats before = .ok s ∧ render values repeats ns = .ok t ∧
        sql = s ++ t := by
  rw [render_append]
  cases render values repeats before with
  | error e => simp [Except.bind]
  | ok s => cases render values repeats ns <;> simp [Except.bind, Except.map, eq_comm]

theorem render_chain_eq_ok_iff {members : Members} :
    render values repeats (.chain members :: ns) = .ok sql ↔
      ∃ s t, renderMembers values repeats members = .ok s ∧ render values repeats ns = .ok t ∧
        sql = s ++ t := by
  rw [render, renderNode]
  cases renderMembers values repeats members with
  | error e => simp
  | ok s => cases render values repeats ns <;> simp [eq_comm]

mutual

/-- The text of what stands in a hole that is reached is a part of the text, and what stands around it
stays when other nodes with the same names and the same guard stand there. -/
theorem Hole.render_reached : (hole : Hole) → {sql : String} → hole.Reached values repeats ns →
    render values repeats (hole.fill ns) = .ok sql →
    ∃ x t y, render values repeats ns = .ok t ∧ sql = x ++ t ++ y ∧
      ∀ ms u, SameNeeds values repeats ns ms → render values repeats ms = .ok u →
        render values repeats (hole.fill ms) = .ok (x ++ u ++ y)
  | .here before, sql, _, h => by
    obtain ⟨x, t, hx, ht, rfl⟩ := render_append_eq_ok_iff.mp h
    refine ⟨x, t, "", ht, (String.append_empty).symm, fun ms u _ hu => ?_⟩
    exact render_append_eq_ok_iff.mpr ⟨x, u, hx, hu, String.append_empty⟩
  | .among before slot after, sql, hreached, h => by
    obtain ⟨a, b, ha, hb, rfl⟩ := render_append_eq_ok_iff.mp h
    obtain ⟨c, d, hc, hd, rfl⟩ := render_chain_eq_ok_iff.mp hb
    obtain ⟨x, t, y, ht, rfl, hother⟩ := slot.render_reached hreached hc
    refine ⟨a ++ x, t, y ++ d, ht, by simp only [String.append_assoc], fun ms u hneeds hu => ?_⟩
    have hchain := render_chain_eq_ok_iff.mpr ⟨_, d, hother ms u hneeds hu, hd, rfl⟩
    refine render_append_eq_ok_iff.mpr ⟨a, _, ha, hchain, ?_⟩
    simp only [String.append_assoc]

theorem Slot.render_reached : (slot : Slot) → {sql : String} → slot.Reached values repeats ns →
    renderMembers values repeats (slot.fill ns) = .ok sql →
    ∃ x t y, render values repeats ns = .ok t ∧ sql = x ++ t ++ y ∧
      ∀ ms u, SameNeeds values repeats ns ms → render values repeats ms = .ok u →
        renderMembers values repeats (slot.fill ms) = .ok (x ++ u ++ y)
  | .first condition hole rest, sql, ⟨hguard, hreached⟩, h => by
    rw [Slot.fill, renderMembers, hguard] at h
    obtain ⟨x, t, y, ht, hsql, hother⟩ := hole.render_reached hreached h
    refine ⟨x, t, y, ht, hsql, fun ms u hneeds hu => ?_⟩
    rw [Slot.fill, renderMembers, ← (hole.sameNeeds_fill hneeds).guardHolds_eq, hguard]
    exact hother ms u hneeds hu
  | .otherwise hole, sql, hreached, h => hole.render_reached hreached h
  | .later condition body slot, sql, ⟨hguard, hreached⟩, h => by
    rw [Slot.fill, renderMembers, hguard] at h
    obtain ⟨x, t, y, ht, hsql, hother⟩ := slot.render_reached hreached h
    refine ⟨x, t, y, ht, hsql, fun ms u hneeds hu => ?_⟩
    rw [Slot.fill, renderMembers, hguard]
    exact hother ms u hneeds hu

end

mutual

theorem Hole.render_unreached (h : SameNeeds values repeats ns ms) : (hole : Hole) →
    ¬ hole.Reached values repeats ns →
    render values repeats (hole.fill ms) = render values repeats (hole.fill ns)
  | .here before, hreached => absurd trivial hreached
  | .among before slot after, hreached => by
    have hslot := slot.render_unreached h hreached
    rw [Hole.fill, Hole.fill, render_append, render_append, render, render, renderNode, renderNode,
      hslot]

theorem Slot.render_unreached (h : SameNeeds values repeats ns ms) : (slot : Slot) →
    ¬ slot.Reached values repeats ns →
    renderMembers values repeats (slot.fill ms) = renderMembers values repeats (slot.fill ns)
  | .first condition hole rest, hreached => by
    rw [Slot.fill, Slot.fill, renderMembers, renderMembers,
      ← (hole.sameNeeds_fill h).guardHolds_eq condition]
    cases hguard : guardHolds values repeats condition (hole.fill ns) with
    | error e => rfl
    | ok b =>
      cases b with
      | true => exact hole.render_unreached h fun hhole => hreached ⟨hguard, hhole⟩
      | false => rfl
  | .otherwise hole, hreached => hole.render_unreached h hreached
  | .later condition body slot, hreached => by
    rw [Slot.fill, Slot.fill, renderMembers, renderMembers]
    cases hguard : guardHolds values repeats condition body with
    | error e => rfl
    | ok b =>
      cases b with
      | true => rfl
      | false => exact slot.render_unreached h fun hslot => hreached ⟨hguard, hslot⟩

end

/-! ## White space behind a chain -/

mutual

theorem Hole.mem_guardedNames {members : Members} {name : String} (hname : name ∈ memberNames members)
    (after : List Node) : (hole : Hole) → (inBranch : Bool) →
    name ∈ guardedNames inBranch (hole.fill (.chain members :: after))
  | .here before, inBranch => by
    rw [Hole.fill, guardedNames_append, guardedNames, nodeNames]
    exact List.mem_append_right _ (List.mem_append_left _ hname)
  | .among before slot more, inBranch => by
    rw [Hole.fill, guardedNames_append, guardedNames, nodeNames]
    exact List.mem_append_right _ (List.mem_append_left _ (slot.mem_memberNames hname after))

theorem Slot.mem_memberNames {members : Members} {name : String} (hname : name ∈ memberNames members)
    (after : List Node) : (slot : Slot) → name ∈ memberNames (slot.fill (.chain members :: after))
  | .first condition hole rest => by
    rw [Slot.fill, memberNames]
    exact List.mem_append_left _ (hole.mem_guardedNames hname after true)
  | .otherwise hole => hole.mem_guardedNames hname after true
  | .later condition body slot => by
    rw [Slot.fill, memberNames]
    exact List.mem_append_right _ (slot.mem_memberNames hname after)

end

/-- White space in front of nodes is not seen in their names and their guard. -/
theorem sameNeeds_gapped {gap : String} (hgap : Text.allBlank gap.toList = true) (ns : List Node) :
    SameNeeds values repeats (gapped gap ns) ns := by
  have hscan (s : String) : Placeholder.scan (gap ++ s).toList = Placeholder.scan s.toList := by
    rw [String.toList_append, Placeholder.scan_blank_append hgap]
  have hempty : Placeholder.scan gap.toList = [] := by
    rw [← scan_empty, ← hscan "", String.append_empty]
  -- The white space is a text of its own, or the beginning of a text.
  have hfirst : SameNeeds values repeats (.text gap :: ns) ns := sameNeeds_text hempty ns
  by_cases hne : gap = ""
  · rw [hne, gapped_empty]
    exact ⟨fun _ => rfl, rfl⟩
  · rw [gapped_of_ne hne]
    cases ns with
    | nil => exact hfirst
    | cons n ns =>
      cases n with
      | text s =>
        refine ⟨fun inBranch => ?_, ?_⟩
        · rw [consText, guardedNames, guardedNames, nodeNames, nodeNames, hscan]
        · rw [consText, implicitGuard, implicitGuard, List.all_cons, List.all_cons, nodeGiven,
            nodeGiven, hscan]
      | expand name sep => exact hfirst
      | chain members => exact hfirst

theorem render_gapped_eq_ok_iff {gap : String} :
    render values repeats (gapped gap ns) = .ok sql ↔
      ∃ s, render values repeats ns = .ok s ∧ sql = gap ++ s := by
  by_cases hne : gap = ""
  · simp [hne, gapped_empty]
  · have hfirst : render values repeats (.text gap :: ns) = .ok sql ↔
        ∃ s, render values repeats ns = .ok s ∧ sql = gap ++ s := by
      rw [render, renderNode]
      cases render values repeats ns <;> simp [eq_comm]
    rw [gapped_of_ne hne]
    cases ns with
    | nil => exact hfirst
    | cons n ns =>
      cases n with
      | text s =>
        rw [consText, render, render, renderNode, renderNode]
        cases render values repeats ns <;> simp [String.append_assoc, eq_comm]
      | expand name sep => exact hfirst
      | chain members => exact hfirst

section
variable {gap : String} {hole : Hole} {members : Members} {after : List Node}

theorem sameNeeds_behind (hgap : Text.allBlank gap.toList = true) (members : Members)
    (after : List Node) :
    SameNeeds values repeats (.chain members :: gapped gap after) (.chain members :: after) :=
  (sameNeeds_gapped hgap after).prepend [.chain members]

/-- The text of a chain that is reached, and the white space behind it: that is the only difference to
the text without the white space. -/
theorem pruneNodes_gapped_reached (hgap : Text.allBlank gap.toList = true)
    (hreached : hole.Reached values repeats (.chain members :: gapped gap after))
    (h : pruneNodes values repeats (hole.fill (.chain members :: gapped gap after)) = .ok sql) :
    ∃ x body y, pruneNodes values repeats [.chain members] = .ok body ∧ sql = x ++ body ++ gap ++ y ∧
      pruneNodes values repeats (hole.fill (.chain members :: after)) = .ok (x ++ body ++ y) := by
  have hneeds : SameNeeds values repeats _ _ := sameNeeds_behind hgap members after
  obtain ⟨hknown, hrender⟩ := pruneNodes_eq_ok_iff.mp h
  obtain ⟨x, t, y, ht, rfl, hother⟩ := hole.render_reached hreached hrender
  obtain ⟨body, s, hbody, hs, rfl⟩ := render_chain_eq_ok_iff.mp ht
  obtain ⟨z, hz, rfl⟩ := render_gapped_eq_ok_iff.mp hs
  refine ⟨x, body, z ++ y, ?_, by simp only [String.append_assoc], ?_⟩
  · refine pruneNodes_eq_ok_iff.mpr ⟨List.find?_eq_none.mpr fun name hname => ?_, ?_⟩
    · have hmember : name ∈ memberNames members := by simpa [guardedNames, nodeNames] using hname
      exact List.find?_eq_none.mp hknown name (hole.mem_guardedNames hmember _ false)
    · exact render_chain_eq_ok_iff.mpr ⟨body, "", hbody, rfl, String.append_empty.symm⟩
  · have hbare := hother _ _ hneeds (render_chain_eq_ok_iff.mpr ⟨body, z, hbody, hz, rfl⟩)
    have hsql : x ++ body ++ (z ++ y) = x ++ (body ++ z) ++ y := by simp only [String.append_assoc]
    rw [(hole.sameNeeds_fill hneeds).unknownName?_eq] at hknown
    rw [hsql]
    exact pruneNodes_eq_ok_iff.mpr ⟨hknown, hbare⟩

theorem pruneNodes_gapped_unreached (hgap : Text.allBlank gap.toList = true)
    (hreached : ¬ hole.Reached values repeats (.chain members :: gapped gap after)) :
    pruneNodes values repeats (hole.fill (.chain members :: after)) =
      pruneNodes values repeats (hole.fill (.chain members :: gapped gap after)) := by
  have hneeds : SameNeeds values repeats _ _ := sameNeeds_behind hgap members after
  rw [pruneNodes, pruneNodes, (hole.sameNeeds_fill hneeds).unknownName?_eq,
    hole.render_unreached hneeds hreached]

end

end

end SqlTemplate.Template
