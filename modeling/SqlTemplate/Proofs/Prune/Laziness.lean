import SqlTemplate.Proofs.Template.EmptyText
import SqlTemplate.Proofs.Template.Placement
/-!
Which conditions of a template are read.

A chain looks at the guards of its branches one after another and stops at the first that holds.
`Selects` states this for the branch with a number, and `Rewords` puts other texts into the conditions
behind that branch and into those in the bodies that are not selected. What is proved:
  1. `exists_selects`: a chain that gives a result selects the branch with some number, or what stands
     behind its branches.
  2. `sameNeeds_of_unworded`: the texts of conditions are not seen in the names that have to be known
     and in the guard of a branch without a condition.
  3. `Rewords.sameUse`: other texts in conditions that are not read are not seen at all.
  4. `pruneNodes_lazy`: so the first match decides in every chain that is reached, and no other
     condition is read, whatever its text is.
-/

namespace SqlTemplate

/-- The body of the branch with the number, counted from 0, and behind the last branch the body that
ends the chain. -/
def Members.body? (ms : Members) (j : Nat) : Option (List Node) :=
  match ms.branches[j]? with
  | some b => some b.2
  | none => ms.otherwise?

namespace Template

section
variable (values : Context) (repeats : Repeats)

/-- A chain selects the branch with a number, or what stands behind its branches if there is none with
it: every guard before is false, and its own is true. -/
structure Selects (ms : Members) (j : Nat) : Prop where
  bound : j ≤ ms.branches.length
  earlier : ∀ i < j, ∀ c body, ms.branches[i]? = some (c, body) →
    guardHolds values repeats c body = .ok false
  own : ∀ c body, ms.branches[j]? = some (c, body) → guardHolds values repeats c body = .ok true
  body : selected values repeats ms = .ok (ms.body? j)

end

mutual

/-- Nodes without the texts of their conditions, at every depth. -/
def unworded : List Node → List Node
  | [] => []
  | n :: ns => nodeUnworded n :: unworded ns

def nodeUnworded : Node → Node
  | .text s => .text s
  | .expand name sep => .expand name sep
  | .chain members => .chain (membersUnworded members)

/-- Members without the texts of their conditions. A branch without a condition stays one. -/
def membersUnworded : Members → Members
  | .nothing => .nothing
  | .otherwise body => .otherwise (unworded body)
  | .branch condition body rest =>
    .branch (condition.map fun _ => "") (unworded body) (membersUnworded rest)

end

section
variable (values : Context) (repeats : Repeats)

mutual

/-- Nodes with other texts in conditions that are not read. -/
inductive Rewords : List Node → List Node → Prop
  | nil : Rewords [] []
  | same {n : Node} {ns ns' : List Node} (h : Rewords ns ns') : Rewords (n :: ns) (n :: ns')
  | chain {ms ms' : Members} {j : Nat} {ns ns' : List Node} (hs : Selects values repeats ms j)
      (hms : MembersReword j ms ms') (h : Rewords ns ns') :
      Rewords (.chain ms :: ns) (.chain ms' :: ns')

/-- The same for members of which those with the number are selected: their own body is reworded as
above, every other body in any way, and of the conditions those behind them. -/
inductive MembersReword : Nat → Members → Members → Prop
  | nothing : MembersReword 0 .nothing .nothing
  | otherwise {body body' : List Node} (hbody : Rewords body body') :
      MembersReword 0 (.otherwise body) (.otherwise body')
  | selected {c : Option String} {body body' : List Node} {rest rest' : Members}
      (hbody : Rewords body body') (hrest : membersUnworded rest = membersUnworded rest') :
      MembersReword 0 (.branch c body rest) (.branch c body' rest')
  | passed {j : Nat} {c : Option String} {body body' : List Node} {rest rest' : Members}
      (hbody : unworded body = unworded body') (hrest : MembersReword j rest rest') :
      MembersReword (j + 1) (.branch c body rest) (.branch c body' rest')

end

end

section
variable {values : Context} {repeats : Repeats} {nodes : List Node}

/-! ## The first match -/

section
variable {c : Option String} {body : List Node} {rest : Members} {j : Nat}

theorem selects_nothing : Selects values repeats .nothing 0 :=
  ⟨Nat.le_refl 0, nofun, nofun, rfl⟩

theorem selects_otherwise : Selects values repeats (.otherwise body) 0 :=
  ⟨Nat.le_refl 0, nofun, nofun, rfl⟩

theorem selects_first (h : guardHolds values repeats c body = .ok true) :
    Selects values repeats (.branch c body rest) 0 where
  bound := Nat.zero_le _
  earlier := nofun
  own d other heq := by
    cases heq
    exact h
  body := by simp only [selected, h, Members.body?, Members.branches, List.getElem?_cons_zero]

/-- A branch whose guard is false counts, and the rest decides. -/
theorem selects_succ_iff : Selects values repeats (.branch c body rest) (j + 1) ↔
    guardHolds values repeats c body = .ok false ∧ Selects values repeats rest j := by
  constructor
  · intro h
    have hfalse := h.earlier 0 (Nat.succ_pos j) c body rfl
    refine ⟨hfalse, Nat.le_of_succ_le_succ h.bound, ?_, h.own, ?_⟩
    · exact fun i hi d other heq => h.earlier (i + 1) (Nat.succ_lt_succ hi) d other heq
    · have hbody := h.body
      simp only [selected, hfalse] at hbody
      exact hbody
  · rintro ⟨hfalse, h⟩
    refine ⟨Nat.succ_le_succ h.bound, fun i hi d other heq => ?_, h.own, ?_⟩
    · cases i with
      | zero =>
        cases heq
        exact hfalse
      | succ i => exact h.earlier i (Nat.lt_of_succ_lt_succ hi) d other heq
    · simp only [selected, hfalse]
      exact h.body

end

theorem exists_selects : (ms : Members) → {body : Option (List Node)} →
    selected values repeats ms = .ok body → ∃ j, Selects values repeats ms j
  | .nothing, _, _ => ⟨0, selects_nothing⟩
  | .otherwise _, _, _ => ⟨0, selects_otherwise⟩
  | .branch _ _ rest, _, h => by
    simp only [selected] at h
    split at h
    · cases h
    · rename_i htrue
      exact ⟨0, selects_first htrue⟩
    · rename_i hfalse
      obtain ⟨j, hj⟩ := exists_selects rest h
      exact ⟨j + 1, selects_succ_iff.mpr ⟨hfalse, hj⟩⟩

theorem Selects.le {ms : Members} {j k : Nat} (hj : Selects values repeats ms j)
    (hk : Selects values repeats ms k) : j ≤ k := by
  refine Nat.le_of_not_lt fun hlt => ?_
  obtain ⟨⟨c, body⟩, hbranch⟩ : ∃ b, ms.branches[k]? = some b :=
    ⟨_, List.getElem?_eq_getElem (Nat.lt_of_lt_of_le hlt hj.bound)⟩
  cases (hj.earlier k hlt c body hbranch).symm.trans (hk.own c body hbranch)

theorem Renders.selects_of_reaches {ps : List Piece} {ms : Members}
    (h : Renders values repeats nodes ps) (hr : Reaches values repeats nodes (.chain ms)) :
    ∃ j, Selects values repeats ms j ∧ ∀ k, Selects values repeats ms k → k = j := by
  have hselected : ∃ body, selected values repeats ms = .ok body := by
    obtain ⟨qs, hchain, _⟩ := h.infix_of_reaches hr
    cases hchain with
    | chain hs _ _ => exact ⟨_, hs⟩
    | skip hs _ => exact ⟨_, hs⟩
  obtain ⟨body, hbody⟩ := hselected
  obtain ⟨j, hj⟩ := exists_selects ms hbody
  exact ⟨j, hj, fun k hk => Nat.le_antisymm (hk.le hj) (hj.le hk)⟩

/-! ## Texts of conditions -/

mutual

theorem guardedNames_unworded (inBranch : Bool) : (ns : List Node) →
    guardedNames inBranch (unworded ns) = guardedNames inBranch ns
  | [] => rfl
  | n :: ns => by
    rw [unworded, guardedNames, guardedNames, nodeNames_unworded inBranch n,
      guardedNames_unworded inBranch ns]

theorem nodeNames_unworded (inBranch : Bool) : (n : Node) →
    nodeNames inBranch (nodeUnworded n) = nodeNames inBranch n
  | .text _ => rfl
  | .expand _ _ => rfl
  | .chain ms => memberNames_unworded ms

theorem memberNames_unworded : (ms : Members) → memberNames (membersUnworded ms) = memberNames ms
  | .nothing => rfl
  | .otherwise body => guardedNames_unworded true body
  | .branch _ body rest => by
    rw [membersUnworded, memberNames, memberNames, guardedNames_unworded true body,
      memberNames_unworded rest]

end

theorem implicitGuard_unworded (ns : List Node) :
    implicitGuard values repeats (unworded ns) = implicitGuard values repeats ns := by
  induction ns with
  | nil => rfl
  | cons n ns ih =>
    have hnode : nodeGiven values repeats (nodeUnworded n) = nodeGiven values repeats n := by
      cases n <;> rfl
    rw [unworded, implicitGuard, implicitGuard, List.all_cons, List.all_cons, hnode]
    exact congrArg _ ih

theorem sameNeeds_of_unworded {ns ms : List Node} (h : unworded ns = unworded ms) :
    SameNeeds values repeats ns ms where
  names inBranch := by rw [← guardedNames_unworded, h, guardedNames_unworded]
  guard := by rw [← implicitGuard_unworded, h, implicitGuard_unworded]

/-! ## Conditions that are not read -/

mutual

theorem Rewords.sameUse : (ns : List Node) → {ms : List Node} → Rewords values repeats ns ms →
    SameUse values repeats ns ms
  | [], _, .nil => ⟨⟨fun _ => rfl, rfl⟩, rfl⟩
  | _ :: ns, _, .same h => (Rewords.sameUse ns h).cons (fun _ => rfl) rfl rfl
  | .chain ms :: ns, _, .chain hs hms h =>
    have hmembers := MembersReword.sameUse ms hs hms
    (Rewords.sameUse ns h).cons (fun _ => hmembers.1) rfl hmembers.2

theorem MembersReword.sameUse : (ms : Members) → {j : Nat} → {ms' : Members} →
    Selects values repeats ms j → MembersReword values repeats j ms ms' →
    memberNames ms = memberNames ms' ∧
      renderMembers values repeats ms = renderMembers values repeats ms'
  | .nothing, _, _, _, .nothing => ⟨rfl, rfl⟩
  | .otherwise body, _, _, _, .otherwise hbody =>
    have h := Rewords.sameUse body hbody
    ⟨h.names true, h.text⟩
  | .branch c body rest, _, _, hs, .selected hbody hrest => by
    have h := Rewords.sameUse body hbody
    have hguard := hs.own c body rfl
    refine ⟨?_, ?_⟩
    · rw [memberNames, memberNames, h.names true, ← memberNames_unworded rest, hrest,
        memberNames_unworded]
    · rw [renderMembers, renderMembers, ← h.guardHolds_eq c, hguard]
      exact h.text
  | .branch c body rest, _, _, hs, .passed hbody hrest => by
    have h : SameNeeds values repeats body _ := sameNeeds_of_unworded hbody
    obtain ⟨hguard, hlater⟩ := selects_succ_iff.mp hs
    obtain ⟨hnames, htext⟩ := MembersReword.sameUse rest hlater hrest
    refine ⟨?_, ?_⟩
    · rw [memberNames, memberNames, h.names true, hnames]
    · rw [renderMembers, renderMembers, ← h.guardHolds_eq c, hguard]
      exact htext

end

/-- In every chain that is reached, the first branch whose guard holds is selected, or else what stands
behind the branches. Conditions behind it, and those in bodies that are not selected, may have any
other texts. -/
theorem pruneNodes_lazy {sql : String} (h : pruneNodes values repeats nodes = .ok sql) :
    (∀ ms, Reaches values repeats nodes (.chain ms) →
      ∃ j, Selects values repeats ms j ∧ ∀ k, Selects values repeats ms k → k = j) ∧
    ∀ others, Rewords values repeats nodes others → pruneNodes values repeats others = .ok sql := by
  constructor
  · intro ms hr
    obtain ⟨_, hrenders, _⟩ := render_eq_ok_iff.mp (pruneNodes_eq_ok_iff.mp h).2
    exact hrenders.selects_of_reaches hr
  · intro others hothers
    rw [← (hothers.sameUse nodes).pruneNodes_eq, h]

end

/-- A condition in a body that is not selected becomes one that cannot be read, and one behind the
selected branch names a variable without a value. -/
theorem pruneNodes_lazy_unreadable :
    let values : Context := Dict.ofList [("m", .int 1), ("n", .int 0)]
    let chain (inner last : String) : Members :=
      .branch (some "$n") [.chain (.branch (some inner) [.text " b"] .nothing)]
        (.branch (some "$m") [.text " c"] (.branch (some last) [.text " d"] .nothing))
    let nodes (inner last : String) : List Node := [.text "a", .chain (chain inner last)]
    pruneNodes values ∅ (nodes "$m" "$n") = .ok "a c" ∧
    (∃ j, Selects values ∅ (chain "$m" "$n") j ∧
      ∀ k, Selects values ∅ (chain "$m" "$n") k → k = j) ∧
    Rewords values ∅ (nodes "$m" "$n") (nodes "$m = (" "$unknown") ∧
    pruneNodes values ∅ (nodes "$m = (" "$unknown") = .ok "a c" := by
  intro values chain nodes
  have hprune : pruneNodes values ∅ (nodes "$m" "$n") = .ok "a c" := by decide +kernel
  have hfirst : guardHolds values ∅ (some "$n") [.chain (.branch (some "$m") [.text " b"] .nothing)] =
      .ok false := by decide +kernel
  have hsecond : guardHolds values ∅ (some "$m") [.text " c"] = .ok true := by decide +kernel
  have hselects : Selects values ∅ (chain "$m" "$n") 1 :=
    selects_succ_iff.mpr ⟨hfirst, selects_first hsecond⟩
  have hrewords : Rewords values ∅ (nodes "$m" "$n") (nodes "$m = (" "$unknown") :=
    .same (.chain hselects (.passed rfl (.selected (.same .nil) rfl)) .nil)
  obtain ⟨hfound, hothers⟩ := pruneNodes_lazy hprune
  exact ⟨hprune, hfound _ (.inl (.tail _ (.head _))), hrewords, hothers _ hrewords⟩

end Template

end SqlTemplate
