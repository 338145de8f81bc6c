import SqlTemplate.Proofs.Prune.Selection
import SqlTemplate.Proofs.Template.Regular
/-!
When a template is refused for a parameter that nothing is known of.

`leaves` lists the texts and expansions of a template as they stand in it, and `unknownNames` the
names of them that have neither a value nor a number of repetitions. What is proved:
  1. `unknownName?_eq_head?`: the check before rendering finds the first of these names.
  2. `reaches_of_render_error`: rendering misses only the name of an expansion that is reached and has
     no number of placeholders. Conditions fail for other reasons.
  3. `prune_unknownParameter`: so the first unknown name is the reason, if there is one, and else an
     expansion in a selected body, whose value is not a sequence.
-/

namespace SqlTemplate.Template

/-! ## Unknown names -/

/-- A text with the number of branches around it, or an expansion. -/
inductive Leaf where
  | text (depth : Nat) (s : String)
  | expansion (name : String)

def Leaf.names : Leaf → List String
  | .text 0 _ => []
  | .text (_ + 1) s => Placeholder.scan s.toList
  | .expansion name => [name]

mutual

/-- The texts and expansions among nodes with `depth` branches around them, at every depth and in the
order of the template. -/
def leaves (depth : Nat) : List Node → List Leaf
  | [] => []
  | n :: ns => nodeLeaves depth n ++ leaves depth ns

def nodeLeaves (depth : Nat) : Node → List Leaf
  | .text s => [.text depth s]
  | .expand name _ => [.expansion name]
  | .chain members => memberLeaves depth members

def memberLeaves (depth : Nat) : Members → List Leaf
  | .nothing => []
  | .otherwise body => leaves (depth + 1) body
  | .branch _ body rest => leaves (depth + 1) body ++ memberLeaves depth rest

end

/-- The names in a template that have to be known and are not, in its order. -/
def unknownNames (values : Context) (repeats : Repeats) (nodes : List Node) : List String :=
  ((leaves 0 nodes).flatMap Leaf.names).filter fun name => !isKnown values repeats name

mutual

theorem guardedNames_eq (depth : Nat) : (nodes : List Node) →
    guardedNames (decide (0 < depth)) nodes = (leaves depth nodes).flatMap Leaf.names
  | [] => rfl
  | n :: ns => by
    rw [guardedNames, leaves, List.flatMap_append, nodeNames_eq depth n, guardedNames_eq depth ns]

theorem nodeNames_eq (depth : Nat) : (n : Node) →
    nodeNames (decide (0 < depth)) n = (nodeLeaves depth n).flatMap Leaf.names
  | .text s => by
    cases depth with
    | zero => rfl
    | succ d => simp [nodeNames, nodeLeaves, Leaf.names]
  | .expand name _ => rfl
  | .chain ms => memberNames_eq depth ms

theorem memberNames_eq (depth : Nat) : (ms : Members) →
    memberNames ms = (memberLeaves depth ms).flatMap Leaf.names
  | .nothing => rfl
  | .otherwise body => by
    have hbody := guardedNames_eq (depth + 1) body
    rwa [decide_eq_true (Nat.succ_pos depth)] at hbody
  | .branch _ body rest => by
    have hbody := guardedNames_eq (depth + 1) body
    rw [decide_eq_true (Nat.succ_pos depth)] at hbody
    rw [memberNames, memberLeaves, List.flatMap_append, hbody, memberNames_eq depth rest]

end

section
variable {values : Context} {repeats : Repeats} {nodes : List Node}

theorem unknownName?_eq_head? :
    unknownName? values repeats nodes = (unknownNames values repeats nodes).head? := by
  rw [unknownName?, unknownNames, List.head?_filter, ← guardedNames_eq]
  rfl

/-! ## Errors of rendering -/

/-- A guard fails only for what stands in its condition. -/
theorem guardHolds_ne_unknownParameter {condition : Option String} {body : List Node} {e : Error}
    (h : guardHolds values repeats condition body = .error e) (name : String) :
    e ≠ .unknownParameter name := by
  rintro rfl
  cases condition with
  | none => cases h
  | some source =>
    simp only [guardHolds, Condition.holds] at h
    split at h
    · rename_i hparse
      cases h
      unfold Condition.parse at hparse
      split at hparse <;> cases hparse
    · split at h <;> cases h

theorem reaches_of_render_error {name : String}
    (h : render values repeats nodes = .error (.unknownParameter name)) :
    ∃ sep, Reaches values repeats nodes (.expand name sep) ∧
      expansionCount? values repeats name = none := by
  cases unrendered_of_render nodes h with
  | expansion hr hcount => exact ⟨_, hr, hcount⟩
  | guard hg => exact absurd rfl (guardHolds_ne_unknownParameter hg name)

/-- No expansion stands outside of all branches, so one that is reached stands in a selected body. -/
theorem selectedBody_of_reaches {name sep : String} (hnodes : isRegular .root nodes = true)
    (h : Reaches values repeats nodes (.expand name sep)) :
    ∃ body, SelectedBody values repeats nodes body ∧ .expand name sep ∈ body := by
  refine h.resolve_left fun htop => ?_
  -- Only the scope of a branch without a condition has expansions.
  have hnode := nodeRegular_of_mem hnodes htop
  simp [nodeRegular] at hnode

theorem expansionCount?_eq_none {name : String} (hknown : isKnown values repeats name = true)
    (h : expansionCount? values repeats name = none) :
    repeats.get? name = none ∧ ∃ v, values.get? name = some v ∧ v.seq? = none := by
  unfold expansionCount? at h
  split at h
  · cases h
  · rename_i hrepeats
    refine ⟨hrepeats, ?_⟩
    cases hv : values.get? name with
    | none => simp [isKnown, Dict.contains, hrepeats, hv] at hknown
    | some v => exact ⟨v, rfl, by simpa [hv] using h⟩

/-! ## Pruning -/

/-- The first unknown name of a template is the reason for which it is refused, before any condition
is read. If all names are known, an unknown parameter is that of an expansion in a selected body. -/
theorem prune_unknownParameter {source : String} (hparse : parse source = .ok nodes)
    (values : Context) (repeats : Repeats) :
    (∀ name more, unknownNames values repeats nodes = name :: more →
      prune source values repeats = .error (.unknownParameter name)) ∧
    (unknownNames values repeats nodes = [] → ∀ name,
      prune source values repeats = .error (.unknownParameter name) →
      ∃ body sep, SelectedBody values repeats nodes body ∧ .expand name sep ∈ body ∧
        repeats.get? name = none ∧ ∃ v, values.get? name = some v ∧ v.seq? = none) := by
  have hprune : prune source values repeats = pruneNodes values repeats nodes := by
    rw [prune, hparse]
  refine ⟨fun name more h => ?_, fun h name herror => ?_⟩
  · -- No condition is read: the check fails before rendering starts.
    have hfirst : unknownName? values repeats nodes = some name := by
      rw [unknownName?_eq_head?, h, List.head?_cons]
    rw [hprune, pruneNodes, hfirst]
  · have hnone : unknownName? values repeats nodes = none := by
      rw [unknownName?_eq_head?, h, List.head?_nil]
    rw [hprune, pruneNodes, hnone] at herror
    obtain ⟨sep, hr, hcount⟩ := reaches_of_render_error herror
    obtain ⟨body, hb, hmem⟩ := selectedBody_of_reaches (isRegular_of_parse hparse) hr
    -- The check has passed, so the name has a value, if it has no repetitions.
    have hknown := isKnown_of_guardedNames hnone (guardedNames_of_reaches hr)
    exact ⟨body, sep, hb, hmem, expansionCount?_eq_none hknown hcount⟩

end

/-- A name in a branch whose condition cannot be read, and an expansion whose value is a number. -/
theorem prune_unknownParameter_unread_condition :
    (let source := "<q>select 1<if c='$n ='> where a = :b and c = :d</if></q>"
     ∃ nodes, parse source = .ok nodes ∧ unknownNames ∅ ∅ nodes = ["b", "d"] ∧
      prune source ∅ ∅ = .error (.unknownParameter "b")) ∧
    (let source := "<q>select 1<if> where a in (<a>:ids</a>)</if></q>"
     let values : Context := Dict.ofList [("ids", .int 4)]
     ∃ nodes body sep, parse source = .ok nodes ∧ unknownNames values ∅ nodes = [] ∧
      prune source values ∅ = .error (.unknownParameter "ids") ∧
      SelectedBody values ∅ nodes body ∧ .expand "ids" sep ∈ body) := by
  refine ⟨?_, ?_⟩
  · intro source
    have hnames : (parse source).map (unknownNames ∅ ∅) = .ok ["b", "d"] := by decide +kernel
    obtain ⟨nodes, hparse, hunknown⟩ := exists_nodes_of_map hnames
    exact ⟨nodes, hparse, hunknown, (prune_unknownParameter hparse ∅ ∅).1 _ _ hunknown⟩
  · intro source values
    have hnames : (parse source).map (unknownNames values ∅) = .ok [] := by decide +kernel
    have herror : prune source values ∅ = .error (.unknownParameter "ids") := by decide +kernel
    obtain ⟨nodes, hparse, hunknown⟩ := exists_nodes_of_map hnames
    obtain ⟨body, sep, hb, hmem, _⟩ :=
      (prune_unknownParameter hparse values ∅).2 hunknown _ herror
    exact ⟨nodes, body, sep, hparse, hunknown, herror, hb, hmem⟩

end SqlTemplate.Template
