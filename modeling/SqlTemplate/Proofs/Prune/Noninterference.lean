import SqlTemplate.Template.Prune
/-!
What a pruned text can tell of the values that it was pruned with: which names have a value, which
of the values are given, how long those are that are sequences, and how the explicit conditions
come out.

What is proved:
  1. `render_congr`: under two contexts that agree in this, nodes give the same text or the same
     error. Names that must be known (`unknownName?_congr`) and guards (`guardHolds_congr`) agree
     as well.
  2. `prune_congr`: so does a whole template, from its source on.

Everything else in a value is kept out of the text: the text has placeholders where values belong,
and the values themselves travel as binds.
-/

namespace SqlTemplate.Template

mutual

/-- The explicit conditions of nodes, at every depth, in the order of the template. -/
def conditions : List Node → List String
  | [] => []
  | n :: ns => nodeConditions n ++ conditions ns

def nodeConditions : Node → List String
  | .text _ => []
  | .expand _ _ => []
  | .chain members => memberConditions members

def memberConditions : Members → List String
  | .nothing => []
  | .otherwise body => conditions body
  | .branch condition body rest => condition.toList ++ conditions body ++ memberConditions rest

end

/-- Two contexts that look alike to a template: they name the same variables, and of each the two
values are both given or both not, and both sequences of one length or both no sequences. -/
structure Alike (v w : Context) : Prop where
  names : ∀ name, v.contains name = w.contains name
  given : ∀ name a b, v.get? name = some a → w.get? name = some b → a.isGiven = b.isGiven
  lengths : ∀ name a b, v.get? name = some a → w.get? name = some b →
    a.seq?.map List.length = b.seq?.map List.length

/-- What a template can see of a value by itself: whether it is given, and its length if it is a
sequence. -/
def outline (v : Value) : Bool × Option Nat := (v.isGiven, v.seq?.map List.length)

/-- The two contexts decide a condition alike: the same truth, or the same error. -/
def Decided (v w : Context) (source : String) : Prop :=
  Condition.holds (some v) source = Condition.holds (some w) source

namespace Alike

variable {v w : Context}

/-- What the two contexts answer about one name. -/
theorem cases (h : Alike v w) (name : String) :
    (v.get? name = none ∧ w.get? name = none) ∨
    ∃ a b, v.get? name = some a ∧ w.get? name = some b ∧ a.isGiven = b.isGiven ∧
      a.seq?.map List.length = b.seq?.map List.length := by
  have hn := h.names name
  cases hv : v.get? name with
  | none =>
    cases hw : w.get? name with
    | none => exact .inl ⟨rfl, rfl⟩
    | some b => simp [Dict.contains, hv, hw] at hn
  | some a =>
    cases hw : w.get? name with
    | none => simp [Dict.contains, hv, hw] at hn
    | some b => exact .inr ⟨a, b, rfl, rfl, h.given name a b hv hw, h.lengths name a b hv hw⟩

theorem isKnown_eq (h : Alike v w) (repeats : Repeats) : isKnown v repeats = isKnown w repeats := by
  funext name
  simp only [isKnown, h.names]

theorem isGiven_eq (h : Alike v w) : isGiven v = isGiven w := by
  funext name
  rcases h.cases name with ⟨hv, hw⟩ | ⟨a, b, hv, hw, hg, _⟩
  · simp only [isGiven, hv, hw]
  · simp only [isGiven, hv, hw, hg]

theorem canExpand_eq (h : Alike v w) (repeats : Repeats) (name : String) :
    canExpand v repeats name = canExpand w repeats name := by
  rcases h.cases name with ⟨hv, hw⟩ | ⟨a, b, hv, hw, hg, _⟩
  · simp only [canExpand, hv, hw]
  · simp only [canExpand, hv, hw, hg]

theorem expansionCount?_eq (h : Alike v w) (repeats : Repeats) (name : String) :
    expansionCount? v repeats name = expansionCount? w repeats name := by
  unfold expansionCount?
  cases repeats.get? name with
  | some n => rfl
  | none =>
    rcases h.cases name with ⟨hv, hw⟩ | ⟨a, b, hv, hw, _, hl⟩
    · rw [hv, hw]
    · rw [hv, hw]
      exact hl

end Alike

/-- Looking alike is having the same outline under every name, which can be computed. -/
theorem alike_iff_outline {v w : Context} :
    Alike v w ↔ (v.map outline).entries = (w.map outline).entries := by
  constructor
  · intro h
    refine congrArg Dict.entries (Dict.ext_get? fun name => ?_)
    rw [Dict.get?_map, Dict.get?_map]
    rcases h.cases name with ⟨hv, hw⟩ | ⟨a, b, hv, hw, hg, hl⟩
    · rw [hv, hw]
    · simp only [hv, hw, Option.map_some, outline, hg, hl]
  · intro h
    have hget : ∀ name, (v.get? name).map outline = (w.get? name).map outline := fun name => by
      rw [← Dict.get?_map, ← Dict.get?_map, Dict.get?, Dict.get?, h]
    refine ⟨fun name => ?_, fun name a b hv hw => ?_, fun name a b hv hw => ?_⟩
    · have := congrArg Option.isSome (hget name)
      rwa [Option.isSome_map, Option.isSome_map] at this
    · have := hget name
      rw [hv, hw] at this
      exact congrArg Prod.fst (Option.some.inj this)
    · have := hget name
      rw [hv, hw] at this
      exact congrArg Prod.snd (Option.some.inj this)

instance (v w : Context) : Decidable (Alike v w) := decidable_of_iff _ alike_iff_outline.symm

instance (v w : Context) (source : String) : Decidable (Decided v w source) :=
  inferInstanceAs (Decidable (_ = _))

section
variable {v w : Context} (h : Alike v w) (repeats : Repeats)
include h

/-! ## The parts of a pruning -/

theorem unknownName?_congr (nodes : List Node) :
    unknownName? v repeats nodes = unknownName? w repeats nodes := by
  unfold unknownName?
  rw [h.isKnown_eq repeats]

theorem nodeGiven_congr : nodeGiven v repeats = nodeGiven w repeats := by
  funext n
  cases n with
  | text s => simp only [nodeGiven, h.isGiven_eq]
  | expand name sep => exact h.canExpand_eq repeats name
  | chain members => rfl

theorem guardHolds_congr (condition : Option String) (body : List Node)
    (hc : ∀ c ∈ condition, Decided v w c) :
    guardHolds v repeats condition body = guardHolds w repeats condition body := by
  cases condition with
  | none => simp only [guardHolds, implicitGuard, nodeGiven_congr h repeats]
  | some c => exact hc c rfl

end

/-! ## The text of nodes -/

section
variable {v w : Context}

mutual

theorem render_congr (h : Alike v w) (repeats : Repeats) :
    (nodes : List Node) → (∀ c ∈ conditions nodes, Decided v w c) →
    render v repeats nodes = render w repeats nodes
  | [], _ => rfl
  | n :: ns, hc => by
    have hn := renderNode_congr h repeats n fun c hm => hc c (List.mem_append_left _ hm)
    have hns := render_congr h repeats ns fun c hm => hc c (List.mem_append_right _ hm)
    simp only [render, hn, hns]

theorem renderNode_congr (h : Alike v w) (repeats : Repeats) :
    (n : Node) → (∀ c ∈ nodeConditions n, Decided v w c) →
    renderNode v repeats n = renderNode w repeats n
  | .text _, _ => rfl
  | .expand name sep, _ => by simp only [renderNode, h.expansionCount?_eq repeats name]
  | .chain members, hc => renderMembers_congr h repeats members hc

theorem renderMembers_congr (h : Alike v w) (repeats : Repeats) :
    (ms : Members) → (∀ c ∈ memberConditions ms, Decided v w c) →
    renderMembers v repeats ms = renderMembers w repeats ms
  | .nothing, _ => rfl
  | .otherwise body, hc => render_congr h repeats body hc
  | .branch condition body rest, hc => by
    -- The guard is decided by the condition, or else by the body's own placeholders.
    have hg := guardHolds_congr h repeats condition body fun c hm =>
      hc c (List.mem_append_left _ (List.mem_append_left _ (Option.mem_toList.mpr hm)))
    have hb := render_congr h repeats body fun c hm =>
      hc c (List.mem_append_left _ (List.mem_append_right _ hm))
    have hr := renderMembers_congr h repeats rest fun c hm => hc c (List.mem_append_right _ hm)
    simp only [renderMembers, hg, hb, hr]

end

theorem pruneNodes_congr (h : Alike v w) (repeats : Repeats) (nodes : List Node)
    (hc : ∀ c ∈ conditions nodes, Decided v w c) :
    pruneNodes v repeats nodes = pruneNodes w repeats nodes := by
  unfold pruneNodes
  rw [unknownName?_congr h repeats nodes, render_congr h repeats nodes hc]

end

/-! ## The text of a template -/

/-- The text of a template is the same under contexts that look alike and decide its conditions
alike, and so is the error of one that has no text. -/
theorem prune_congr (source : String) {v w : Context} (repeats : Repeats) (h : Alike v w)
    (hc : ∀ nodes, parse source = .ok nodes → ∀ c ∈ conditions nodes, Decided v w c) :
    prune source v repeats = prune source w repeats := by
  unfold prune
  cases hp : parse source with
  | error e => rfl
  | ok nodes => exact pruneNodes_congr h repeats nodes (hc nodes hp)

/-- A list of other items and a text with a quote in it leave no trace in the pruned text. -/
theorem prune_congr_other_items :
    let source := "<q>select 1<if> where a in (<a>:ids</a>)</if>" ++
      "<if c='$level &gt; 1'> and b = :name</if><else> limit :level</else></q>"
    let v : Context := Dict.ofList
      [("ids", .seq [.int 4, .int 9]), ("level", .int 7), ("name", .text "KING")]
    let w : Context := Dict.ofList
      [("ids", .seq [.text "x", .null]), ("level", .int 2), ("name", .text "' or 1 = 1 --")]
    Alike v w ∧ (∀ nodes, parse source = .ok nodes → ∀ c ∈ conditions nodes, Decided v w c) ∧
      prune source v ∅ = prune source w ∅ ∧
      prune source v ∅ = .ok "select 1 where a in (:ids0, :ids1) and b = :name" := by
  intro source v w
  have alike : Alike v w := by decide +kernel
  have found : (parse source).toOption.map conditions = some ["$level > 1"] := by decide +kernel
  have decided : ∀ nodes, parse source = .ok nodes → ∀ c ∈ conditions nodes, Decided v w c := by
    intro nodes hp c hm
    rw [hp] at found
    rw [Option.some.inj found] at hm
    rw [List.mem_singleton.mp hm]
    decide +kernel
  exact ⟨alike, decided, prune_congr source ∅ alike decided, by decide +kernel⟩

end SqlTemplate.Template
