import Mathlib.Data.List.TakeWhile
import SqlTemplate.Proofs.Placeholder.Cuts
import SqlTemplate.Proofs.Placeholder.Numbering
import SqlTemplate.Proofs.Template.Placement
/-!
Which placeholders a pruned text can have.

Before a template is rendered, the names in its branches are checked, each text by itself. The engine
reads the rendered text, in which the texts stand next to each other. What is proved:
  1. `accounted_of_piece`: a placeholder of one piece is accounted for. It stands in a text outside of
     all branches, or its name is known, or it belongs to an expansion, or to a separator.
  2. `prune_accounted`: so is a placeholder of the pruned text, unless a piece ends inside it, or
     inside a quoted text, a comment or a placeholder before it.
  3. `prune_escapes`: each of these, and a separator with a placeholder, is enough for a name that
     nothing has checked.
-/

namespace SqlTemplate.Template

open Placeholder (mem_scan)

def ownNames : Node → List String
  | .text s => Placeholder.scan s.toList
  | _ => []

section
variable (values : Context) (repeats : Repeats) (nodes : List Node)

/-- A name is a placeholder of a text outside of all branches, or it is known, or it is that of a
numbered placeholder of an expansion that is rendered. -/
def Covered (name : String) : Prop :=
  name ∈ nodes.flatMap ownNames ∨
  isKnown values repeats name = true ∨
  ∃ label sep n i, Reaches values repeats nodes (.expand label sep) ∧
    expansionCount? values repeats label = some n ∧ i < n ∧ name = Placeholder.numbered label i

/-- A name is a placeholder in the separator of an expansion that is rendered and has a separator. -/
def InSeparator (name : String) : Prop :=
  ∃ label sep n, Reaches values repeats nodes (.expand label sep) ∧
    expansionCount? values repeats label = some n ∧ 2 ≤ n ∧ name ∈ Placeholder.scan sep.toList

/-- The placeholders of a text that nodes are rendered to, piece by piece, are accounted for. -/
structure Accounts (sql : String) (pieces : List Piece) : Prop where
  rendered : Renders values repeats nodes pieces
  chars : sql.toList = pieces.flatMap Piece.chars
  /-- Every placeholder is covered or in a separator, unless a piece ends inside it, or inside a
  quoted text, a comment or a placeholder before it. -/
  placeholders : ∀ before name after,
    Placeholder.segments sql.toList = before ++ .placeholder name :: after →
    Covered values repeats nodes (String.ofList name) ∨
    InSeparator values repeats nodes (String.ofList name) ∨
    Segment.Crosses (pieces.map Piece.chars) (before ++ [.placeholder name])
  /-- If no piece ends inside any of these, all names are. -/
  names : ¬ Segment.Crosses (pieces.map Piece.chars) (Placeholder.segments sql.toList) →
    ∀ name ∈ Placeholder.scan sql.toList,
      Covered values repeats nodes name ∨ InSeparator values repeats nodes name

end

/-! ## Names of expansions -/

section
variable {values : Context} {repeats : Repeats} {nodes : List Node}

theorem isRegular_of_selected {ms : Members} {body : List Node} (h : membersRegular true ms = true)
    (hs : selected values repeats ms = .ok (some body)) : ∃ scope, isRegular scope body = true := by
  have hbodies := (membersRegular_true_iff.mp h).2
  rcases mem_of_selected ms hs with ⟨c, hc, _⟩ | hbody
  · exact ⟨_, hbodies.branches _ hc⟩
  · exact ⟨_, hbodies.otherwise _ hbody⟩

theorem SelectedBody.exists_chain {scope : Scope} {body : List Node}
    (h : SelectedBody values repeats nodes body) (hnodes : isRegular scope nodes = true) :
    ∃ ms, membersRegular true ms = true ∧ selected values repeats ms = .ok (some body) := by
  induction h generalizing scope with
  | member hm hs => exact ⟨_, nodeRegular_of_mem hnodes hm, hs⟩
  | inner hm hs _ ih =>
    obtain ⟨inside, houter⟩ := isRegular_of_selected (nodeRegular_of_mem hnodes hm) hs
    exact ih houter

theorem isName_of_reaches {scope : Scope} {name sep : String} (hnodes : isRegular scope nodes = true)
    (h : Reaches values repeats nodes (.expand name sep)) :
    Placeholder.isName name.toList = true := by
  have hname {inside : Scope} {ns : List Node} (hns : isRegular inside ns = true)
      (hmem : .expand name sep ∈ ns) : Placeholder.isName name.toList = true :=
    (Bool.and_eq_true _ _ ▸ nodeRegular_of_mem hns hmem :).2
  rcases h with h | ⟨body, hb, h⟩
  · exact hname hnodes h
  · obtain ⟨ms, hms, hs⟩ := hb.exists_chain hnodes
    obtain ⟨inside, hbody⟩ := isRegular_of_selected hms hs
    exact hname hbody h

/-! ## Placeholders of pieces -/

theorem accounted_of_piece (hnodes : isRegular .root nodes = true)
    (hknown : unknownName? values repeats nodes = none) {p : Piece}
    (hp : p.Origin values repeats nodes) {name : String}
    (hname : name ∈ Placeholder.scan p.chars) :
    Covered values repeats nodes name ∨ InSeparator values repeats nodes name := by
  cases p with
  | text s =>
    rcases hp with htop | ⟨body, hb, hs⟩
    · exact .inl (.inl (List.mem_flatMap.mpr ⟨_, htop, hname⟩))
    · -- The texts in branches are those that the check has looked at.
      have hbody : name ∈ guardedNames true body := mem_guardedNames.mpr ⟨_, hs, hname⟩
      exact .inl (.inr (.inl
        (isKnown_of_guardedNames hknown (guardedNames_of_selectedBody hb hbody false))))
  | placeholder label i =>
    obtain ⟨sep, n, hr, hn, hi⟩ := hp
    have hlabel := Placeholder.isName_numbered (isName_of_reaches hnodes hr) i
    rw [Piece.chars, Placeholder.scan_placeholder hlabel, List.mem_singleton] at hname
    exact .inl (.inr (.inr ⟨label, sep, n, i, hr, hn, hi, hname⟩))
  | separator sep =>
    obtain ⟨label, n, hr, hn, htwo⟩ := hp
    exact .inr ⟨label, sep, n, hr, hn, htwo, hname⟩

theorem accounts_of_renders (hnodes : isRegular .root nodes = true)
    (hknown : unknownName? values repeats nodes = none) {sql : String} {pieces : List Piece}
    (hr : Renders values repeats nodes pieces) (hsql : sql.toList = pieces.flatMap Piece.chars) :
    Accounts values repeats nodes sql pieces := by
  have haccounted {name : List Char}
      (h : ∃ cs ∈ pieces.map Piece.chars, .placeholder name ∈ Placeholder.segments cs) :
      Covered values repeats nodes (String.ofList name) ∨
        InSeparator values repeats nodes (String.ofList name) := by
    obtain ⟨cs, hcs, hmem⟩ := h
    obtain ⟨p, hp, rfl⟩ := List.mem_map.mp hcs
    exact accounted_of_piece hnodes hknown (hr.origin p hp) (mem_scan.mpr ⟨name, hmem, rfl⟩)
  have hlocal (before : List Segment) (name : List Char) (after : List Segment)
      (h : Placeholder.segments sql.toList = before ++ .placeholder name :: after) :
      (Covered values repeats nodes (String.ofList name) ∨
        InSeparator values repeats nodes (String.ofList name)) ∨
        Segment.Crosses (pieces.map Piece.chars) (before ++ [.placeholder name]) := by
    rw [hsql, List.flatMap_def] at h
    exact (Placeholder.placeholder_of_flatten h).imp_left haccounted
  refine ⟨hr, hsql, fun before name after h => or_assoc.mp (hlocal before name after h), ?_⟩
  intro huncrossed name hname
  obtain ⟨cs, hcs, rfl⟩ := mem_scan.mp hname
  obtain ⟨before, after, hsplit⟩ := List.append_of_mem hcs
  refine (hlocal before cs after hsplit).resolve_right fun hcross => huncrossed ?_
  rw [hsplit, List.append_cons]
  exact hcross.append_right after

/-! ## Pruned texts -/

/-- The placeholders of a pruned text are accounted for. -/
theorem prune_accounted {source sql : String} {values : Context} {repeats : Repeats}
    (h : prune source values repeats = .ok sql) :
    ∃ nodes pieces, parse source = .ok nodes ∧ Accounts values repeats nodes sql pieces := by
  unfold prune at h
  split at h
  · cases h
  · rename_i nodes hparse
    unfold pruneNodes at h
    split at h
    · cases h
    · rename_i hknown
      obtain ⟨pieces, hr, hsql⟩ := render_eq_ok_iff.mp h
      exact ⟨nodes, pieces, hparse, accounts_of_renders (isRegular_of_parse hparse) hknown hr hsql⟩

end

/-- One placeholder from outside of the branches, one from a branch and two of an expansion. -/
theorem prune_accounted_expansion :
    let source := "<q>select :id<if> where k = :key</if><if> and a in (<a>:ids</a>)</if></q>"
    let values : Context := Dict.ofList [("ids", .seq [.int 4, .int 9]), ("key", .int 1)]
    let sql := "select :id where k = :key and a in (:ids0, :ids1)"
    prune source values ∅ = .ok sql ∧
      (∃ nodes pieces, parse source = .ok nodes ∧ Accounts values ∅ nodes sql pieces) ∧
      Placeholder.scan sql.toList = ["id", "key", "ids0", "ids1"] := by
  intro source values sql
  have h : prune source values ∅ = .ok sql := by decide +kernel
  exact ⟨h, prune_accounted h, by decide +kernel⟩

/-! ## Placeholders that nothing has checked -/

/-- The text of a template has a placeholder that is not covered. -/
def Escapes (source : String) (values : Context) (repeats : Repeats) (name : String) : Prop :=
  ∃ nodes sql, parse source = .ok nodes ∧ prune source values repeats = .ok sql ∧
    name ∈ Placeholder.scan sql.toList ∧ ¬ Covered values repeats nodes name

/-- A name escapes that is in no text outside of the branches, has no value, and is not that of an
expansion with a number. -/
theorem escapes_of_unnamed {source sql name : String} {values : Context} {repeats : Repeats}
    {own : List String} (hown : (parse source).map (·.flatMap ownNames) = .ok own)
    (hsql : prune source values repeats = .ok sql) (hscan : name ∈ Placeholder.scan sql.toList)
    (hname : name ∉ own) (hknown : isKnown values repeats name = false)
    (hcount : ∀ label n i, expansionCount? values repeats label = some n →
      name ≠ Placeholder.numbered label i) : Escapes source values repeats name := by
  obtain ⟨nodes, hnodes, rfl⟩ := exists_nodes_of_map hown
  refine ⟨nodes, sql, hnodes, hsql, hscan, ?_⟩
  rintro (h | h | ⟨label, sep, n, i, _, hn, _, h⟩)
  · exact hname h
  · rw [hknown] at h
    cases h
  · exact hcount label n i hn h

/-- What stands in the branch is quoted, or a comment, or a name without a colon, as long as the text
in front of it is not read. The last name stands in a separator. -/
theorem prune_escapes :
    Escapes "<q>select '<if>' || :key || '</if>'</q>" ∅ ∅ "key" ∧
    Escapes "<q>select 1 /*<if>-- */ + :key</if></q>" ∅ ∅ "key" ∧
    Escapes "<q>select :<if>key</if></q>" ∅ ∅ "key" ∧
    Escapes "<q>select 1<if> where a in (<a sep=' + :step + '>:ids</a>)</if></q>" ∅
      (Dict.ofList [("ids", 2)]) "step" := by
  have hnothing (source sql : String) (hown : (parse source).map (·.flatMap ownNames) = .ok [])
      (hsql : prune source ∅ ∅ = .ok sql) (hscan : "key" ∈ Placeholder.scan sql.toList) :
      Escapes source ∅ ∅ "key" := by
    refine escapes_of_unnamed hown hsql hscan (by decide) rfl ?_
    intro label n i hn
    cases hn
  refine ⟨?_, ?_, ?_, ?_⟩
  · exact hnothing _ "select '' || :key || ''" (by decide +kernel) (by decide +kernel)
      (by decide +kernel)
  · exact hnothing _ "select 1 /*-- */ + :key" (by decide +kernel) (by decide +kernel)
      (by decide +kernel)
  · exact hnothing _ "select :key" (by decide +kernel) (by decide +kernel) (by decide +kernel)
  · have hsql : prune "<q>select 1<if> where a in (<a sep=' + :step + '>:ids</a>)</if></q>" ∅
        (Dict.ofList [("ids", 2)]) = .ok "select 1 where a in (:ids0 + :step + :ids1)" := by
      decide +kernel
    have hown : (parse "<q>select 1<if> where a in (<a sep=' + :step + '>:ids</a>)</if></q>").map
        (·.flatMap ownNames) = .ok [] := by decide +kernel
    refine escapes_of_unnamed hown hsql (by decide +kernel) (by decide) rfl ?_
    intro label n i hn h
    unfold expansionCount? at hn
    split at hn
    · -- Only `ids` has repetitions, and its placeholders start with another letter.
      rename_i hlabel
      obtain ⟨rfl, _⟩ := Prod.mk.inj (List.mem_singleton.mp (Dict.get?_eq_some_iff.mp hlabel))
      rw [Placeholder.numbered, ← String.toList_inj, String.toList_append] at h
      cases (List.cons.inj h).1
    · cases hn

end SqlTemplate.Template
