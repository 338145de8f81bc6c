import SqlTemplate.Proofs.Prune.Coverage
import SqlTemplate.Proofs.Prune.StaticCheck
/-!
How many placeholders an expansion has in a pruned text.

The guard of a branch asks the value of an expansion, and without one the number of its repetitions.
The expansion itself asks the number of its repetitions first. What is proved:
  1. `implicitGuard_of_selected`: a body with an expansion is selected only if its own guard holds.
  2. `eq_zero_iff_overruled`: then the number of its placeholders is zero only if its value is given and
     its repetitions are none.
  3. `prune_expansions`: so every expansion that is reached has a placeholder in the text, with this one
     exception.
  4. `prune_empty_list`: in it, a list without elements is in the text.
-/

namespace SqlTemplate.Template

section
variable {values : Context} {repeats : Repeats} {nodes : List Node}

/-! ## Guards of expansions -/

theorem selected_of_implicitGuard {body : List Node} (h : implicitGuard values repeats body = true)
    (rest : Members) : selected values repeats (.branch none body rest) = .ok (some body) := by
  simp only [selected, guardHolds, h]

theorem implicitGuard_of_selected {ms : Members} {body : List Node} {name sep : String}
    (h : membersRegular true ms = true) (hs : selected values repeats ms = .ok (some body))
    (hmem : .expand name sep ∈ body) : implicitGuard values repeats body = true := by
  have hbodies := (membersRegular_true_iff.mp h).2
  have hscope {scope : Scope} (hbody : isRegular scope body = true) : scope = .implicitBranch := by
    have hnode := nodeRegular_of_mem hbody hmem
    simp only [nodeRegular, Bool.and_eq_true, decide_eq_true_eq] at hnode
    exact hnode.1
  rcases mem_of_selected ms hs with ⟨c, hc, hguard⟩ | hbody
  · cases c with
    | none => exact Except.ok.inj hguard
    | some c => cases hscope (hbodies.branches _ hc)
  · cases hscope (hbodies.otherwise _ hbody)

theorem canExpand_of_reaches {name sep : String} (hnodes : isRegular .root nodes = true)
    (h : Reaches values repeats nodes (.expand name sep)) :
    canExpand values repeats name = true := by
  obtain ⟨body, hb, hmem⟩ := selectedBody_of_reaches hnodes h
  obtain ⟨ms, hms, hs⟩ := hb.exists_chain hnodes
  exact List.all_eq_true.mp (implicitGuard_of_selected hms hs hmem) _ hmem

/-! ## Numbers of placeholders -/

/-- The value of an expansion is given, but its repetitions are none. -/
def Overruled (values : Context) (repeats : Repeats) (name : String) : Prop :=
  isGiven values name = true ∧ repeats.get? name = some 0

/-- The number of placeholders of an expansion that has something to expand is zero only if the
repetitions overrule the value. -/
theorem eq_zero_iff_overruled {name : String} {n : Nat} (h : canExpand values repeats name = true)
    (hn : expansionCount? values repeats name = some n) : n = 0 ↔ Overruled values repeats name := by
  cases hrepeats : repeats.get? name with
  | some m =>
    have hm : m = n := by simpa [expansionCount?, hrepeats] using hn
    subst hm
    cases hvalue : values.get? name with
    | some v =>
      have hgiven : v.isGiven = true := by simpa [canExpand, hvalue] using h
      simp [Overruled, isGiven, hvalue, hgiven, hrepeats]
    | none =>
      have hpos : 0 < m := by simpa [canExpand, hvalue, hrepeats] using h
      simp [Overruled, isGiven, hvalue, hpos.ne']
  | none =>
    -- A sequence is given only if it has elements.
    obtain ⟨v, hvalue, items, hitems, rfl⟩ : ∃ v, values.get? name = some v ∧
        ∃ items, v.seq? = some items ∧ items.length = n := by
      simpa [expansionCount?, hrepeats, Option.bind_eq_some_iff] using hn
    have hgiven : v.isGiven = true := by simpa [canExpand, hvalue] using h
    cases v with
    | seq xs =>
      cases hitems
      have hne : items ≠ [] := by simpa [Value.isGiven] using hgiven
      simp [Overruled, hrepeats, hne]
    | _ => cases hitems

/-! ## Pieces of expansions -/

theorem Renders.of_expand {name sep : String} {ps : List Piece}
    (h : Renders values repeats [.expand name sep] ps) :
    ∃ n, expansionCount? values repeats name = some n ∧ ps = expansionPieces name sep n := by
  cases h with
  | expand hn hrest =>
    cases hrest
    exact ⟨_, hn, List.append_nil _⟩

theorem placeholder_mem_expansionPieces {name sep : String} {n i : Nat} (h : i < n) :
    .placeholder name i ∈ expansionPieces name sep n := by
  refine List.mem_flatMap.mpr ⟨i, List.mem_range.mpr h, ?_⟩
  split <;> simp

/-! ## Pruned texts -/

/-- A body with an expansion that has nothing to expand is not selected. An expansion that is reached
stands in the text with all its placeholders, and it has none exactly if its value is given and its
repetitions are none. -/
theorem prune_expansions {source sql : String} (h : prune source values repeats = .ok sql) :
    ∃ nodes pieces, parse source = .ok nodes ∧ Renders values repeats nodes pieces ∧
      sql.toList = pieces.flatMap Piece.chars ∧
      (∀ body name sep, .expand name sep ∈ body → canExpand values repeats name = false →
        ¬ SelectedBody values repeats nodes body) ∧
      ∀ name sep, Reaches values repeats nodes (.expand name sep) →
        ∃ n, expansionCount? values repeats name = some n ∧
          expansionPieces name sep n <:+: pieces ∧
          (∀ i < n, .placeholder name i ∈ pieces) ∧
          (n = 0 ↔ Overruled values repeats name) := by
  obtain ⟨nodes, hparse, hprune⟩ := prune_eq_ok_iff.mp h
  obtain ⟨pieces, hrenders, hsql⟩ := render_eq_ok_iff.mp (pruneNodes_eq_ok_iff.mp hprune).2
  have hcan {name sep : String} (hr : Reaches values repeats nodes (.expand name sep)) :
      canExpand values repeats name = true := canExpand_of_reaches (isRegular_of_parse hparse) hr
  refine ⟨nodes, pieces, hparse, hrenders, hsql, ?_, ?_⟩
  · intro body name sep hmem hnothing hbody
    rw [hcan (.inr ⟨body, hbody, hmem⟩)] at hnothing
    cases hnothing
  · intro name sep hr
    obtain ⟨qs, hexpansion, hpieces⟩ := hrenders.infix_of_reaches hr
    obtain ⟨n, hn, rfl⟩ := hexpansion.of_expand
    exact ⟨n, hn, hpieces, fun i hi => hpieces.subset (placeholder_mem_expansionPieces hi),
      eq_zero_iff_overruled (hcan hr) hn⟩

end

/-- Two repetitions of one value, and three of a sequence without elements. -/
theorem prune_expansions_repeated :
    let source := "<q>select 1<if> where a in (<a sep=', '>:ids</a>)</if>" ++
      "<if> and b in (<a sep=', '>:more</a>)</if></q>"
    let body := [.text " where a in (", .expand "ids" ", ", .text ")"]
    let other := [.text " and b in (", .expand "more" ", ", .text ")"]
    let nodes := [.text "select 1", .chain (.branch none body .nothing),
      .chain (.branch none other .nothing)]
    let values : Context := Dict.ofList [("ids", .seq [.int 4]), ("more", .seq [])]
    let repeats : Repeats := Dict.ofList [("ids", 2), ("more", 3)]
    prune source values repeats = .ok "select 1 where a in (:ids0, :ids1)" ∧
    parse source = .ok nodes ∧ ¬ SelectedBody values repeats nodes other ∧
    ∃ pieces, Renders values repeats nodes pieces ∧ expansionPieces "ids" ", " 2 <:+: pieces := by
  intro source body other nodes values repeats
  have hprune : prune source values repeats = .ok "select 1 where a in (:ids0, :ids1)" := by
    decide +kernel
  have hwrite : write .single "q" nodes = source := by decide +kernel
  have hparse : parse source = .ok nodes := by
    rw [← hwrite, parse, read_write .single (by decide) (by decide +kernel) (by decide +kernel)]
  obtain ⟨ns, pieces, hns, hrenders, _, hskipped, hreached⟩ := prune_expansions hprune
  cases hparse.symm.trans hns
  have hguard : implicitGuard values repeats body = true := by decide +kernel
  have hr : Reaches values repeats nodes (.expand "ids" ", ") :=
    .inr ⟨body, .member (.tail _ (.head _)) (selected_of_implicitGuard hguard .nothing),
      .tail _ (.head _)⟩
  obtain ⟨n, hn, hpieces, _⟩ := hreached _ _ hr
  cases hn
  exact ⟨hprune, hparse, hskipped other "more" ", " (.tail _ (.head _)) rfl, pieces, hrenders, hpieces⟩

/-- The value is a sequence with one element, so the body is selected. The number of repetitions is
zero, so the list is empty. -/
theorem prune_empty_list :
    let source := "<q>select 1<if> where a in (<a sep=', '>:ids</a>)</if></q>"
    let body := [.text " where a in (", .expand "ids" ", ", .text ")"]
    let nodes := [.text "select 1", .chain (.branch none body .nothing)]
    let values : Context := Dict.ofList [("ids", .seq [.int 1])]
    let repeats : Repeats := Dict.ofList [("ids", 0)]
    parse source = .ok nodes ∧ SelectedBody values repeats nodes body ∧
    expansionCount? values repeats "ids" = some 0 ∧
    prune source values repeats = .ok "select 1 where a in ()" := by
  intro source body nodes values repeats
  have hwrite : write .single "q" nodes = source := by decide +kernel
  have hparse : parse source = .ok nodes := by
    rw [← hwrite, parse, read_write .single (by decide) (by decide +kernel) (by decide +kernel)]
  have hguard : implicitGuard values repeats body = true := by decide +kernel
  exact ⟨hparse, .member (.tail _ (.head _)) (selected_of_implicitGuard hguard .nothing), rfl,
    by decide +kernel⟩

end SqlTemplate.Template
