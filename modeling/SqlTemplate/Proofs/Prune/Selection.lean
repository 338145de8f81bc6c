import SqlTemplate.Template.Prune
/-!
Which parts of a template its text is made of.

`selected` is the body that a chain is replaced by, `SelectedBody` says which bodies are reached in
this way, and `Renders` which pieces a template is rendered to: texts as they stand, and the
placeholders and separators of expansions. What is proved:
  1. `render_eq_ok_iff`: the text of nodes is that of the pieces that they are rendered to.
  2. `Renders.origin`, `Renders.infix_of_reaches`: every piece comes from a node that is reached, and
     what such a node is rendered to is a part of the whole.
  3. `guardedNames_of_reaches`: the names in the selected bodies are among those that have to be known.
  4. `unrendered_of_render`: what cannot be rendered has an expansion without a number of placeholders
     that is reached, or a guard that fails.
-/

namespace SqlTemplate.Template

section
variable (values : Context) (repeats : Repeats)

/-- The body of the first member of a chain whose guard holds, if there is one. -/
def selected : Members → Except Error (Option (List Node))
  | .nothing => .ok none
  | .otherwise body => .ok (some body)
  | .branch condition body rest =>
    match guardHolds values repeats condition body with
    | .error e => .error e
    | .ok true => .ok (some body)
    | .ok false => selected rest

/-- The bodies that are selected in nodes, at every depth: that of a chain, and those that are
selected in it. -/
inductive SelectedBody : List Node → List Node → Prop
  | member {nodes : List Node} {ms : Members} {body : List Node} (hm : .chain ms ∈ nodes)
      (hs : selected values repeats ms = .ok (some body)) : SelectedBody nodes body
  | inner {nodes : List Node} {ms : Members} {outer body : List Node} (hm : .chain ms ∈ nodes)
      (hs : selected values repeats ms = .ok (some outer)) (h : SelectedBody outer body) :
      SelectedBody nodes body

/-- A node stands among nodes or in a body that is selected in them. -/
def Reaches (nodes : List Node) (n : Node) : Prop :=
  n ∈ nodes ∨ ∃ body, SelectedBody values repeats nodes body ∧ n ∈ body

end

/-- A piece of the text of a template: a text, a placeholder of an expansion with its number, or the
separator between two of them. -/
inductive Piece where
  | text (s : String)
  | placeholder (name : String) (i : Nat)
  | separator (sep : String)
  deriving DecidableEq, Repr

def Piece.chars : Piece → List Char
  | .text s => s.toList
  | .placeholder name i => ':' :: (Placeholder.numbered name i).toList
  | .separator sep => sep.toList

/-- The pieces of an expansion of `n` placeholders. -/
def expansionPieces (name sep : String) (n : Nat) : List Piece :=
  (List.range n).flatMap fun i =>
    if i = 0 then [.placeholder name i] else [.separator sep, .placeholder name i]

/-- The pieces that nodes are rendered to. -/
inductive Renders (values : Context) (repeats : Repeats) : List Node → List Piece → Prop
  | nil : Renders values repeats [] []
  | text {s : String} {ns : List Node} {ps : List Piece} (h : Renders values repeats ns ps) :
      Renders values repeats (.text s :: ns) (.text s :: ps)
  | expand {name sep : String} {n : Nat} {ns : List Node} {ps : List Piece}
      (hn : expansionCount? values repeats name = some n) (h : Renders values repeats ns ps) :
      Renders values repeats (.expand name sep :: ns) (expansionPieces name sep n ++ ps)
  | chain {ms : Members} {body ns : List Node} {qs ps : List Piece}
      (hs : selected values repeats ms = .ok (some body)) (hb : Renders values repeats body qs)
      (h : Renders values repeats ns ps) : Renders values repeats (.chain ms :: ns) (qs ++ ps)
  | skip {ms : Members} {ns : List Node} {ps : List Piece}
      (hs : selected values repeats ms = .ok none) (h : Renders values repeats ns ps) :
      Renders values repeats (.chain ms :: ns) ps

theorem exists_nodes_of_map {α : Type} {f : List Node → α} {source : String} {a : α}
    (h : (parse source).map f = .ok a) : ∃ nodes, parse source = .ok nodes ∧ f nodes = a := by
  cases hnodes : parse source with
  | error e => rw [hnodes] at h; cases h
  | ok nodes =>
    rw [hnodes] at h
    exact ⟨nodes, rfl, Except.ok.inj h⟩

section
variable {values : Context} {repeats : Repeats} {nodes : List Node}

/-! ## Selected bodies -/

theorem SelectedBody.mono {ns ms body : List Node} (h : SelectedBody values repeats ns body)
    (hsub : ns ⊆ ms) : SelectedBody values repeats ms body := by
  cases h with
  | member hm hs => exact .member (hsub hm) hs
  | inner hm hs h => exact .inner (hsub hm) hs h

theorem Reaches.mono {ns ms : List Node} {n : Node} (h : Reaches values repeats ns n)
    (hsub : ns ⊆ ms) : Reaches values repeats ms n := by
  rcases h with h | ⟨body, hb, hn⟩
  · exact .inl (hsub h)
  · exact .inr ⟨body, hb.mono hsub, hn⟩

theorem Reaches.of_selected {ms : Members} {body : List Node} {n : Node} (hm : .chain ms ∈ nodes)
    (hs : selected values repeats ms = .ok (some body)) (h : Reaches values repeats body n) :
    Reaches values repeats nodes n := by
  rcases h with h | ⟨inner, hb, hn⟩
  · exact .inr ⟨body, .member hm hs, h⟩
  · exact .inr ⟨inner, .inner hm hs hb, hn⟩

/-- A node that is reached is the first, or it is reached in the body that the first is replaced by,
or behind the first. -/
theorem Reaches.cons_cases {n m : Node} {ns : List Node}
    (h : Reaches values repeats (n :: ns) m) :
    m = n ∨
    (∃ ms body, n = .chain ms ∧ selected values repeats ms = .ok (some body) ∧
      Reaches values repeats body m) ∨
    Reaches values repeats ns m := by
  rcases h with h | ⟨body, hb, hm⟩
  · rcases List.mem_cons.mp h with rfl | h
    · exact .inl rfl
    · exact .inr (.inr (.inl h))
  · cases hb with
    | member hc hs =>
      rcases List.mem_cons.mp hc with rfl | hc
      · exact .inr (.inl ⟨_, body, rfl, hs, .inl hm⟩)
      · exact .inr (.inr (.inr ⟨body, .member hc hs, hm⟩))
    | inner hc hs hb =>
      rcases List.mem_cons.mp hc with rfl | hc
      · exact .inr (.inl ⟨_, _, rfl, hs, .inr ⟨body, hb, hm⟩⟩)
      · exact .inr (.inr (.inr ⟨body, .inner hc hs hb, hm⟩))

theorem not_reaches_nil {m : Node} : ¬ Reaches values repeats [] m := by
  rintro (h | ⟨body, hb, hm⟩)
  · cases h
  · cases hb with
    | member hc _ => cases hc
    | inner hc _ _ => cases hc

theorem renderMembers_eq : (ms : Members) → renderMembers values repeats ms =
    match selected values repeats ms with
    | .error e => .error e
    | .ok none => .ok ""
    | .ok (some body) => render values repeats body
  | .nothing => rfl
  | .otherwise _ => rfl
  | .branch condition body rest => by
    simp only [renderMembers, selected]
    cases guardHolds values repeats condition body with
    | error e => rfl
    | ok b =>
      cases b with
      | true => rfl
      | false => exact renderMembers_eq rest

/-! ## Names in selected bodies -/

theorem mem_guardedNames {inBranch : Bool} {name : String} :
    name ∈ guardedNames inBranch nodes ↔ ∃ n ∈ nodes, name ∈ nodeNames inBranch n := by
  induction nodes with
  | nil => simp [guardedNames]
  | cons n ns ih => simp [guardedNames, ih]

theorem guardedNames_of_selected {name : String} : (ms : Members) → {body : List Node} →
    selected values repeats ms = .ok (some body) → name ∈ guardedNames true body →
    name ∈ memberNames ms
  | .nothing, _, hs, _ => by cases hs
  | .otherwise _, _, hs, hname => by cases hs; exact hname
  | .branch condition _ rest, _, hs, hname => by
    rw [memberNames, List.mem_append]
    simp only [selected] at hs
    split at hs
    · cases hs
    · cases hs
      exact .inl hname
    · exact .inr (guardedNames_of_selected rest hs hname)

theorem guardedNames_of_selectedBody {name : String} {body : List Node}
    (h : SelectedBody values repeats nodes body) (hname : name ∈ guardedNames true body)
    (inBranch : Bool) : name ∈ guardedNames inBranch nodes := by
  induction h generalizing inBranch with
  | member hm hs => exact mem_guardedNames.mpr ⟨_, hm, guardedNames_of_selected _ hs hname⟩
  | inner hm hs _ ih =>
    exact mem_guardedNames.mpr ⟨_, hm, guardedNames_of_selected _ hs (ih hname true)⟩

theorem guardedNames_of_reaches {name sep : String}
    (h : Reaches values repeats nodes (.expand name sep)) : name ∈ guardedNames false nodes := by
  rcases h with h | ⟨body, hb, h⟩
  · exact mem_guardedNames.mpr ⟨_, h, List.mem_singleton_self name⟩
  · exact guardedNames_of_selectedBody hb
      (mem_guardedNames.mpr ⟨_, h, List.mem_singleton_self name⟩) false

theorem isKnown_of_guardedNames {name : String} (h : unknownName? values repeats nodes = none)
    (hname : name ∈ guardedNames false nodes) : isKnown values repeats name = true := by
  have hall := List.find?_eq_none.mp h name hname
  simpa using hall

/-! ## Pieces -/

/-- Where a piece comes from: a text from a node that is reached, a placeholder from an expansion that
is reached and has as many, a separator from one that has two or more. -/
def Piece.Origin (values : Context) (repeats : Repeats) (nodes : List Node) : Piece → Prop
  | .text s => Reaches values repeats nodes (.text s)
  | .placeholder name i => ∃ sep n, Reaches values repeats nodes (.expand name sep) ∧
      expansionCount? values repeats name = some n ∧ i < n
  | .separator sep => ∃ name n, Reaches values repeats nodes (.expand name sep) ∧
      expansionCount? values repeats name = some n ∧ 2 ≤ n

theorem Piece.Origin.lift {ns ms : List Node} {p : Piece} (h : p.Origin values repeats ns)
    (hlift : ∀ n, Reaches values repeats ns n → Reaches values repeats ms n) :
    p.Origin values repeats ms := by
  cases p with
  | text s => exact hlift _ h
  | placeholder name i =>
    obtain ⟨sep, n, hr, hn, hi⟩ := h
    exact ⟨sep, n, hlift _ hr, hn, hi⟩
  | separator sep =>
    obtain ⟨name, n, hr, hn, hi⟩ := h
    exact ⟨name, n, hlift _ hr, hn, hi⟩

theorem origin_of_mem_expansionPieces {name sep : String} {n : Nat}
    (h : Reaches values repeats nodes (.expand name sep))
    (hn : expansionCount? values repeats name = some n) {p : Piece}
    (hp : p ∈ expansionPieces name sep n) : p.Origin values repeats nodes := by
  obtain ⟨i, hi, hp⟩ := List.mem_flatMap.mp hp
  rw [List.mem_range] at hi
  split at hp
  · rw [List.mem_singleton.mp hp]
    exact ⟨sep, n, h, hn, hi⟩
  · simp only [List.mem_cons, List.not_mem_nil, or_false] at hp
    rcases hp with rfl | rfl
    · exact ⟨name, n, h, hn, by omega⟩
    · exact ⟨sep, n, h, hn, hi⟩

theorem Renders.origin {ps : List Piece} (h : Renders values repeats nodes ps) :
    ∀ p ∈ ps, p.Origin values repeats nodes := by
  have hnext {n : Node} {ns : List Node} {p : Piece} (hp : p.Origin values repeats ns) :
      p.Origin values repeats (n :: ns) :=
    hp.lift fun m hm => hm.mono (List.subset_cons_self n ns)
  induction h with
  | nil => simp
  | text _ ih =>
    intro p hp
    rcases List.mem_cons.mp hp with rfl | hp
    · exact .inl List.mem_cons_self
    · exact hnext (ih p hp)
  | expand hn _ ih =>
    intro p hp
    rcases List.mem_append.mp hp with hp | hp
    · exact origin_of_mem_expansionPieces (.inl List.mem_cons_self) hn hp
    · exact hnext (ih p hp)
  | chain hs _ _ ihb ih =>
    intro p hp
    rcases List.mem_append.mp hp with hp | hp
    · exact (ihb p hp).lift fun m hm => hm.of_selected List.mem_cons_self hs
    · exact hnext (ih p hp)
  | skip _ _ ih => exact fun p hp => hnext (ih p hp)

theorem Renders.infix_of_reaches {ps : List Piece} {n : Node} (h : Renders values repeats nodes ps)
    (hr : Reaches values repeats nodes n) :
    ∃ qs, Renders values repeats [n] qs ∧ qs <:+: ps := by
  induction h with
  | nil => exact absurd hr not_reaches_nil
  | @text s _ ps _ ih =>
    rcases hr.cons_cases with rfl | ⟨_, _, heq, _⟩ | hr
    · exact ⟨[.text s], .text .nil, (List.prefix_append [.text s] ps).isInfix⟩
    · cases heq
    · obtain ⟨qs, hqs, hinfix⟩ := ih hr
      exact ⟨qs, hqs, hinfix.trans (List.suffix_cons _ _).isInfix⟩
  | @expand name sep n _ ps hn _ ih =>
    rcases hr.cons_cases with rfl | ⟨_, _, heq, _⟩ | hr
    · exact ⟨expansionPieces name sep n ++ [], .expand hn .nil, [], ps, by simp⟩
    · cases heq
    · obtain ⟨qs, hqs, hinfix⟩ := ih hr
      exact ⟨qs, hqs, hinfix.trans (List.suffix_append _ _).isInfix⟩
  | @chain _ _ _ qs ps hs hb _ ihb ih =>
    rcases hr.cons_cases with rfl | ⟨_, _, heq, hbody, hr⟩ | hr
    · exact ⟨qs ++ [], .chain hs hb .nil, [], ps, by simp⟩
    · cases heq
      cases hs.symm.trans hbody
      obtain ⟨rs, hrs, hinfix⟩ := ihb hr
      exact ⟨rs, hrs, hinfix.trans (List.prefix_append _ _).isInfix⟩
    · obtain ⟨rs, hrs, hinfix⟩ := ih hr
      exact ⟨rs, hrs, hinfix.trans (List.suffix_append _ _).isInfix⟩
  | skip hs _ ih =>
    rcases hr.cons_cases with rfl | ⟨_, _, heq, hbody, _⟩ | hr
    · exact ⟨[], .skip hs .nil, List.nil_infix⟩
    · cases heq
      cases hs.symm.trans hbody
    · exact ih hr

/-! ## Rendering -/

theorem joined_cons (sep w : List Char) (ws : List (List Char)) :
    Text.joined sep (w :: ws) = w ++ ws.flatMap (sep ++ ·) := by
  induction ws generalizing w with
  | nil => simp [Text.joined]
  | cons v ws ih =>
    have hstep : Text.joined sep (w :: v :: ws) = w ++ sep ++ Text.joined sep (v :: ws) := rfl
    rw [hstep, ih, List.flatMap_cons]
    simp

theorem chars_expansionPieces (name sep : String) (n : Nat) :
    (expansionPieces name sep n).flatMap Piece.chars = (expanded name sep n).toList := by
  rw [expanded, String.toList_ofList]
  cases n with
  | zero => rfl
  | succ n =>
    rw [expansionPieces, List.range_succ_eq_map, List.map_cons, joined_cons, List.flatMap_cons,
      if_pos rfl, List.flatMap_append, List.flatMap_map, List.flatMap_assoc, List.map_map,
      List.flatMap_map]
    simp [Piece.chars]

mutual

theorem renders_of_render : (nodes : List Node) → {s : String} →
    render values repeats nodes = .ok s →
    ∃ ps, Renders values repeats nodes ps ∧ s.toList = ps.flatMap Piece.chars
  | [], s, h => by
    cases h
    exact ⟨[], .nil, rfl⟩
  | n :: ns, s, h => by
    simp only [render] at h
    split at h
    · cases h
    · rename_i a hn
      split at h
      · cases h
      · rename_i b hns
        cases h
        obtain ⟨ps, hps, hb⟩ := renders_of_render ns hns
        rw [String.toList_append, hb]
        exact renders_cons_of_renderNode n hn hps

theorem renders_cons_of_renderNode : (n : Node) → {ns : List Node} → {a : String} →
    {ps : List Piece} → renderNode values repeats n = .ok a → Renders values repeats ns ps →
    ∃ qs, Renders values repeats (n :: ns) qs ∧
      a.toList ++ ps.flatMap Piece.chars = qs.flatMap Piece.chars
  | .text s, ns, a, ps, hn, hps => by
    cases hn
    exact ⟨.text s :: ps, .text hps, rfl⟩
  | .expand name sep, ns, a, ps, hn, hps => by
    simp only [renderNode] at hn
    split at hn
    · rename_i n hcount
      cases hn
      refine ⟨_, .expand hcount hps, ?_⟩
      rw [List.flatMap_append, chars_expansionPieces]
    · cases hn
  | .chain ms, ns, a, ps, hn, hps => by
    rcases renders_of_renderMembers ms hn with ⟨hs, ha⟩ | ⟨body, qs, hs, hb, ha⟩
    · exact ⟨ps, .skip hs hps, by rw [ha]; rfl⟩
    · exact ⟨qs ++ ps, .chain hs hb hps, by rw [ha, List.flatMap_append]⟩

theorem renders_of_renderMembers : (ms : Members) → {a : String} →
    renderMembers values repeats ms = .ok a →
    (selected values repeats ms = .ok none ∧ a = "") ∨
    ∃ body qs, selected values repeats ms = .ok (some body) ∧ Renders values repeats body qs ∧
      a.toList = qs.flatMap Piece.chars
  | .nothing, a, h => by
    cases h
    exact .inl ⟨rfl, rfl⟩
  | .otherwise body, a, h => by
    obtain ⟨qs, hb, ha⟩ := renders_of_render body h
    exact .inr ⟨body, qs, rfl, hb, ha⟩
  | .branch condition body rest, a, h => by
    simp only [renderMembers] at h
    split at h
    · cases h
    · rename_i hg
      obtain ⟨qs, hb, ha⟩ := renders_of_render body h
      exact .inr ⟨body, qs, by simp only [selected, hg], hb, ha⟩
    · rename_i hg
      simp only [selected, hg]
      exact renders_of_renderMembers rest h

end

theorem Renders.render_eq {ps : List Piece} (h : Renders values repeats nodes ps) :
    render values repeats nodes = .ok (String.ofList (ps.flatMap Piece.chars)) := by
  induction h with
  | nil => rfl
  | text _ ih => simp [render, renderNode, ih, Piece.chars]
  | expand hn _ ih => simp [render, renderNode, hn, ih, chars_expansionPieces]
  | chain hs _ _ ihb ih => simp [render, renderNode, renderMembers_eq, hs, ihb, ih]
  | skip hs _ ih => simp [render, renderNode, renderMembers_eq, hs, ih]

theorem render_eq_ok_iff {s : String} : render values repeats nodes = .ok s ↔
    ∃ ps, Renders values repeats nodes ps ∧ s.toList = ps.flatMap Piece.chars := by
  refine ⟨renders_of_render nodes, ?_⟩
  rintro ⟨ps, h, hs⟩
  rw [h.render_eq, ← hs, String.ofList_toList]

theorem pruneNodes_eq_ok_iff {sql : String} : pruneNodes values repeats nodes = .ok sql ↔
    unknownName? values repeats nodes = none ∧ render values repeats nodes = .ok sql := by
  rw [pruneNodes]
  cases unknownName? values repeats nodes <;> simp

theorem prune_eq_ok_iff {source sql : String} : prune source values repeats = .ok sql ↔
    ∃ nodes, parse source = .ok nodes ∧ pruneNodes values repeats nodes = .ok sql := by
  rw [prune]
  cases parse source <;> simp

theorem prune_of_parse {source : String} (h : parse source = .ok nodes) (values : Context)
    (repeats : Repeats) : prune source values repeats = pruneNodes values repeats nodes := by
  rw [prune, h]

/-! ## Errors -/

/-- Why nodes cannot be rendered: an expansion that is reached has no number of placeholders, or the
guard of a branch fails. -/
inductive Unrendered (values : Context) (repeats : Repeats) (nodes : List Node) : Error → Prop
  | expansion {name sep : String} (h : Reaches values repeats nodes (.expand name sep))
      (hcount : expansionCount? values repeats name = none) :
      Unrendered values repeats nodes (.unknownParameter name)
  | guard {condition : Option String} {body : List Node} {e : Error}
      (h : guardHolds values repeats condition body = .error e) : Unrendered values repeats nodes e

theorem Unrendered.lift {ns ms : List Node} {e : Error} (h : Unrendered values repeats ns e)
    (hlift : ∀ n, Reaches values repeats ns n → Reaches values repeats ms n) :
    Unrendered values repeats ms e := by
  cases h with
  | expansion h hcount => exact .expansion (hlift _ h) hcount
  | guard h => exact .guard h

mutual

theorem unrendered_of_render : (nodes : List Node) → {e : Error} →
    render values repeats nodes = .error e → Unrendered values repeats nodes e
  | [], e, h => by cases h
  | n :: ns, e, h => by
    simp only [render] at h
    split at h
    · rename_i hn
      cases h
      exact (unrendered_of_renderNode n hn).lift fun _ hr =>
        hr.mono (List.cons_subset_cons n (List.nil_subset ns))
    · split at h
      · rename_i hns
        cases h
        exact (unrendered_of_render ns hns).lift fun _ hr => hr.mono (List.subset_cons_self n ns)
      · cases h

theorem unrendered_of_renderNode : (n : Node) → {e : Error} →
    renderNode values repeats n = .error e → Unrendered values repeats [n] e
  | .text _, e, h => by cases h
  | .expand name sep, e, h => by
    simp only [renderNode] at h
    split at h
    · cases h
    · rename_i hcount
      cases h
      exact .expansion (.inl List.mem_cons_self) hcount
  | .chain ms, e, h => by
    rcases unrendered_of_renderMembers ms h with ⟨c, body, hg⟩ | ⟨body, hs, hbody⟩
    · exact .guard hg
    · exact hbody.lift fun _ hr => hr.of_selected List.mem_cons_self hs

theorem unrendered_of_renderMembers : (ms : Members) → {e : Error} →
    renderMembers values repeats ms = .error e →
    (∃ condition body, guardHolds values repeats condition body = .error e) ∨
    ∃ body, selected values repeats ms = .ok (some body) ∧ Unrendered values repeats body e
  | .nothing, e, h => by cases h
  | .otherwise body, e, h => .inr ⟨body, rfl, unrendered_of_render body h⟩
  | .branch condition body rest, e, h => by
    simp only [renderMembers] at h
    split at h
    · rename_i hg
      cases h
      exact .inl ⟨condition, body, hg⟩
    · rename_i hg
      exact .inr ⟨body, by simp only [selected, hg], unrendered_of_render body h⟩
    · rename_i hg
      simp only [selected, hg]
      exact unrendered_of_renderMembers rest h

end

end

end SqlTemplate.Template
