import SqlTemplate.Proofs.Prune.Selection
import SqlTemplate.Proofs.Template.Regular
import SqlTemplate.Proofs.Template.RoundTrip
/-!
Where the parts of a template stand.

`Stands` goes through a template list by list: its own nodes, and the body of every branch and of
every `else`, at any depth. `Obeys` states the rules for one such list.

What is proved:
  1. `mem_of_selected`: the body that a chain selects is that of one of its branches, or the one that
     ends it.
  2. `isRegular_iff_level`: nodes are regular if their own list obeys the rules and every body in it
     is regular.
  3. `isRegular_iff_stands`: so they are regular if every list that stands in them obeys the rules.
  4. `parse_obeys`: every template obeys the rules everywhere. They leave nothing out: all nodes
     that obey them, without an empty text, are those of a template.
-/

namespace SqlTemplate

def Members.branches : Members → List (Option String × List Node)
  | .nothing | .otherwise _ => []
  | .branch condition body rest => (condition, body) :: rest.branches

def Members.otherwise? : Members → Option (List Node)
  | .nothing => none
  | .otherwise body => some body
  | .branch _ _ rest => rest.otherwise?

namespace Template

/-- What the body of a branch is to the nodes in it. -/
def bodyScope : Option String → Scope
  | none => .implicitBranch
  | some _ => .body

/-- The lists that stand in nodes, and where: the nodes themselves, at the place that is given, and
the bodies in a list that stands in them. -/
inductive Stands (scope : Scope) (nodes : List Node) : Scope → List Node → Prop
  | top : Stands scope nodes scope nodes
  | branch {place : Scope} {ns : List Node} {ms : Members} {c : Option String} {body : List Node}
      (h : Stands scope nodes place ns) (hm : .chain ms ∈ ns) (hb : (c, body) ∈ ms.branches) :
      Stands scope nodes (bodyScope c) body
  | otherwise {place : Scope} {ns : List Node} {ms : Members} {body : List Node}
      (h : Stands scope nodes place ns) (hm : .chain ms ∈ ns) (hb : ms.otherwise? = some body) :
      Stands scope nodes .body body

def TextsApart (ns : List Node) : Prop :=
  ∀ before s t after, ns ≠ before ++ .text s :: .text t :: after

/-- A chain has a branch, every branch after the first has a condition, and no condition is
blank. -/
structure Guarded (ms : Members) : Prop where
  guards : ∃ first rest, ms.branches = first :: rest ∧ ∀ b ∈ rest, b.1.isSome = true
  conditions : ∀ b ∈ ms.branches, ∀ c ∈ b.1, Text.allBlank c.toList = false

structure Obeys (scope : Scope) (ns : List Node) : Prop where
  expansions : ∀ name sep, .expand name sep ∈ ns →
    scope = .implicitBranch ∧ Placeholder.isName name.toList = true
  chains : ∀ ms, .chain ms ∈ ns → Guarded ms
  texts : TextsApart ns

/-! ## Selected bodies -/

/-- The body that a chain selects is that of a branch whose guard holds, or the one that ends it. -/
theorem mem_of_selected {values : Context} {repeats : Repeats} : (ms : Members) →
    {body : List Node} → selected values repeats ms = .ok (some body) →
    (∃ c, (c, body) ∈ ms.branches ∧ guardHolds values repeats c body = .ok true) ∨
      ms.otherwise? = some body
  | .nothing, _, h => by cases h
  | .otherwise _, _, h => by
    cases h
    exact .inr rfl
  | .branch c _ rest, _, h => by
    simp only [selected] at h
    split at h
    · cases h
    · rename_i hguard
      cases h
      exact .inl ⟨c, List.mem_cons_self, hguard⟩
    · rcases mem_of_selected rest h with ⟨d, hd, hguard⟩ | hbody
      · exact .inl ⟨d, List.mem_cons_of_mem _ hd, hguard⟩
      · exact .inr hbody

/-! ## One level -/

theorem textsApart_cons {n : Node} {ns : List Node} :
    TextsApart (n :: ns) ↔ (isText n && ns.head?.any isText) = false ∧ TextsApart ns := by
  constructor
  · intro h
    refine ⟨?_, fun before s t after hns => h (n :: before) s t after (by rw [hns]; rfl)⟩
    cases n with
    | text s =>
      cases ns with
      | nil => rfl
      | cons m ms =>
        cases m with
        | text t => exact absurd rfl (h [] s t ms)
        | expand name sep => rfl
        | chain members => rfl
    | expand name sep => rfl
    | chain members => rfl
  · rintro ⟨hhead, htail⟩ before s t after hns
    cases before with
    | nil =>
      cases hns
      cases hhead
    | cons m before =>
      cases hns
      exact htail before s t after rfl

theorem isRegular_iff_forall {scope : Scope} {ns : List Node} :
    isRegular scope ns = true ↔ (∀ n ∈ ns, nodeRegular scope n = true) ∧ TextsApart ns := by
  induction ns with
  | nil => simp [isRegular, TextsApart]
  | cons n ns ih =>
    rw [isRegular, Bool.and_eq_true, Bool.and_eq_true, Bool.not_eq_true', ih, textsApart_cons,
      List.forall_mem_cons]
    constructor
    · rintro ⟨⟨hn, hapart⟩, hns, htexts⟩
      exact ⟨⟨hn, hns⟩, hapart, htexts⟩
    · rintro ⟨⟨hn, hns⟩, hapart, htexts⟩
      exact ⟨⟨hn, hapart⟩, hns, htexts⟩

structure BodiesRegular (ms : Members) : Prop where
  branches : ∀ b ∈ ms.branches, isRegular (bodyScope b.1) b.2 = true
  otherwise : ∀ body ∈ ms.otherwise?, isRegular .body body = true

theorem bodyScope_eq (c : Option String) :
    (if c.isNone then Scope.implicitBranch else .body) = bodyScope c := by
  cases c <;> rfl

theorem bodiesRegular_branch {c : Option String} {body : List Node} {rest : Members} :
    BodiesRegular (.branch c body rest) ↔
      isRegular (bodyScope c) body = true ∧ BodiesRegular rest := by
  constructor
  · intro h
    exact ⟨h.branches _ List.mem_cons_self,
      fun b hb => h.branches b (List.mem_cons_of_mem _ hb), h.otherwise⟩
  · intro ⟨hbody, hrest⟩
    exact ⟨List.forall_mem_cons.mpr ⟨hbody, hrest.branches⟩, hrest.otherwise⟩

theorem conditions_iff {c : Option String} :
    c.all (fun c => !Text.allBlank c.toList) = true ↔ ∀ d ∈ c, Text.allBlank d.toList = false := by
  cases c <;> simp

theorem membersRegular_false_iff (ms : Members) : membersRegular false ms = true ↔
    (∀ b ∈ ms.branches, b.1.isSome = true) ∧
    (∀ b ∈ ms.branches, ∀ c ∈ b.1, Text.allBlank c.toList = false) ∧ BodiesRegular ms := by
  cases ms with
  | nothing =>
    have hbodies : BodiesRegular .nothing := by
      constructor <;> intro b hb <;> cases hb
    simp [membersRegular, Members.branches, hbodies]
  | otherwise body =>
    have hbodies : BodiesRegular (.otherwise body) ↔ isRegular .body body = true := by
      constructor
      · intro h
        exact h.otherwise body rfl
      · intro h
        refine ⟨fun b hb => ?_, fun b hb => ?_⟩
        · cases hb
        · cases hb
          exact h
    simp [membersRegular, Members.branches, hbodies]
  | branch c body rest =>
    have ih := membersRegular_false_iff rest
    rw [membersRegular, Bool.false_or, bodyScope_eq, Bool.and_eq_true, Bool.and_eq_true,
      Bool.and_eq_true, conditions_iff, ih, bodiesRegular_branch, Members.branches,
      List.forall_mem_cons, List.forall_mem_cons]
    constructor
    · rintro ⟨⟨⟨hsome, hc⟩, hbody⟩, hsomes, hcs, hbodies⟩
      exact ⟨⟨hsome, hsomes⟩, ⟨hc, hcs⟩, hbody, hbodies⟩
    · rintro ⟨⟨hsome, hsomes⟩, ⟨hc, hcs⟩, hbody, hbodies⟩
      exact ⟨⟨⟨hsome, hc⟩, hbody⟩, hsomes, hcs, hbodies⟩

theorem membersRegular_true_iff {ms : Members} :
    membersRegular true ms = true ↔ Guarded ms ∧ BodiesRegular ms := by
  have none_of (h : ms.branches = []) : ¬Guarded ms := fun hg => by
    obtain ⟨first, rest, hcons, _⟩ := hg.guards
    rw [h] at hcons
    cases hcons
  cases ms with
  | nothing => simp [membersRegular, none_of rfl]
  | otherwise body => simp [membersRegular, none_of rfl]
  | branch c body rest =>
    rw [membersRegular, Bool.true_or, Bool.true_and, bodyScope_eq, Bool.and_eq_true,
      Bool.and_eq_true, conditions_iff, membersRegular_false_iff rest, bodiesRegular_branch]
    -- The first branch alone may be without a condition; its own guard is not asked for.
    constructor
    · rintro ⟨⟨hc, hbody⟩, hsomes, hcs, hbodies⟩
      exact ⟨⟨⟨_, _, rfl, hsomes⟩, List.forall_mem_cons.mpr ⟨hc, hcs⟩⟩, hbody, hbodies⟩
    · rintro ⟨⟨⟨first, others, hcons, hsomes⟩, hconditions⟩, hbody, hbodies⟩
      cases hcons
      obtain ⟨hc, hcs⟩ := List.forall_mem_cons.mp hconditions
      exact ⟨⟨hc, hbody⟩, hsomes, hcs, hbodies⟩

/-- Nodes are regular if their list obeys the rules and the bodies in it are regular. -/
theorem isRegular_iff_level {scope : Scope} {ns : List Node} :
    isRegular scope ns = true ↔
      Obeys scope ns ∧ ∀ ms, .chain ms ∈ ns → BodiesRegular ms := by
  rw [isRegular_iff_forall]
  constructor
  · rintro ⟨hnodes, htexts⟩
    have hchain (ms : Members) (hm : .chain ms ∈ ns) : Guarded ms ∧ BodiesRegular ms :=
      membersRegular_true_iff.mp (hnodes (.chain ms) hm)
    have hexpand (name sep : String) (hm : .expand name sep ∈ ns) :
        scope = .implicitBranch ∧ Placeholder.isName name.toList = true := by
      simpa [nodeRegular] using hnodes _ hm
    exact ⟨⟨hexpand, fun ms hm => (hchain ms hm).1, htexts⟩, fun ms hm => (hchain ms hm).2⟩
  · rintro ⟨hobeys, hbodies⟩
    refine ⟨fun n hn => ?_, hobeys.texts⟩
    cases n with
    | text s => rfl
    | expand name sep => simpa [nodeRegular] using hobeys.expansions name sep hn
    | chain ms => exact membersRegular_true_iff.mpr ⟨hobeys.chains ms hn, hbodies ms hn⟩

/-! ## Every level -/

theorem Stands.trans {scope place inner : Scope} {nodes ns body : List Node}
    (h : Stands scope nodes place ns) (hb : Stands place ns inner body) :
    Stands scope nodes inner body := by
  induction hb with
  | top => exact h
  | branch _ hm hb ih => exact .branch ih hm hb
  | otherwise _ hm hb ih => exact .otherwise ih hm hb

theorem isRegular_of_stands {scope place : Scope} {nodes ns : List Node}
    (h : isRegular scope nodes = true) (hs : Stands scope nodes place ns) :
    isRegular place ns = true := by
  induction hs with
  | top => exact h
  | branch _ hm hb ih => exact ((isRegular_iff_level.mp ih).2 _ hm).branches _ hb
  | otherwise _ hm hb ih => exact ((isRegular_iff_level.mp ih).2 _ hm).otherwise _ hb

theorem sizeOf_branch : (ms : Members) → {c : Option String} → {body : List Node} →
    (c, body) ∈ ms.branches → sizeOf body < sizeOf ms
  | .branch d first rest, c, body, h => by
    rw [Members.branches, List.mem_cons] at h
    rcases h with h | h
    · cases h
      simp only [Members.branch.sizeOf_spec]
      omega
    · have hrest := sizeOf_branch rest h
      simp only [Members.branch.sizeOf_spec]
      omega

theorem sizeOf_otherwise : (ms : Members) → {body : List Node} → ms.otherwise? = some body →
    sizeOf body < sizeOf ms
  | .otherwise body, _, h => by
    cases h
    simp only [Members.otherwise.sizeOf_spec]
    omega
  | .branch d first rest, body, h => by
    have hrest := sizeOf_otherwise rest h
    simp only [Members.branch.sizeOf_spec]
    omega

theorem sizeOf_chain {ns : List Node} {ms : Members} (hm : .chain ms ∈ ns) :
    sizeOf ms < sizeOf ns := by
  have hlt := List.sizeOf_lt_of_mem hm
  simp only [Node.chain.sizeOf_spec] at hlt
  omega

theorem isRegular_of_obeys {scope : Scope} {nodes : List Node}
    (h : ∀ place ns, Stands scope nodes place ns → Obeys place ns) :
    isRegular scope nodes = true := by
  -- By the size of the nodes: a body is smaller, and what stands in it stands in the whole.
  refine isRegular_iff_level.mpr
    ⟨h scope nodes .top, fun ms hm => ⟨fun b hb => ?_, fun body hb => ?_⟩⟩
  · have hsize := Nat.lt_trans (sizeOf_branch ms hb) (sizeOf_chain hm)
    exact isRegular_of_obeys fun place ns hs => h place ns ((Stands.branch .top hm hb).trans hs)
  · have hsize := Nat.lt_trans (sizeOf_otherwise ms hb) (sizeOf_chain hm)
    exact isRegular_of_obeys fun place ns hs => h place ns ((Stands.otherwise .top hm hb).trans hs)
termination_by sizeOf nodes

/-- Nodes are regular if every list that stands in them obeys the rules. -/
theorem isRegular_iff_stands {scope : Scope} {nodes : List Node} :
    isRegular scope nodes = true ↔ ∀ place ns, Stands scope nodes place ns → Obeys place ns :=
  ⟨fun h _ _ hs => (isRegular_iff_level.mp (isRegular_of_stands h hs)).1, isRegular_of_obeys⟩

/-! ## Templates -/

/-- In a template every list of nodes obeys the rules for its place: an expansion has the name of a
placeholder and stands directly in a branch without a condition, a chain has a branch, only its
first branch may be without a condition, no condition is blank, and no two neighbours are texts.
Nothing else is asked of nodes without an empty text: those that obey the rules are read from some
source. -/
theorem parse_obeys :
    (∀ source nodes, parse source = .ok nodes →
      ∀ place ns, Stands .root nodes place ns → Obeys place ns) ∧
    (∀ nodes, textsFull nodes = true →
      (∀ place ns, Stands .root nodes place ns → Obeys place ns) →
      ∃ source, parse source = .ok nodes) := by
  constructor
  · intro source nodes h
    exact isRegular_iff_stands.mp (isRegular_of_parse h)
  · intro nodes hfull hobeys
    have hread : read (write .double "q" nodes).toList = .ok nodes :=
      read_write .double (by decide) (isRegular_of_obeys hobeys) hfull
    exact ⟨write .double "q" nodes, by rw [parse, hread]⟩

/-- A comment and a section of character data between texts, white space between the members of a
chain, a chain in an `else`, and an empty branch. -/
theorem parse_obeys_sections :
    ∃ nodes,
      parse
        "<q>a<!-- --><![CDATA[<]]><if>:x<a> :y </a></if> <elsif c='1'/> <else><if/></else>b</q>" =
        .ok nodes ∧
      treeEvents nodes = [.text "a<",
        .start "if" [] false, .text ":x", .start "a" [("sep", ", ")] false, .text ":y", .stop "a",
        .stop "if", .start "elsif" [("c", "1")] false, .stop "elsif",
        .start "else" [] false, .start "if" [] false, .stop "if", .stop "else", .text "  b"] ∧
      ∀ place ns, Stands .root nodes place ns → Obeys place ns := by
  have hmap :
      (parse
        "<q>a<!-- --><![CDATA[<]]><if>:x<a> :y </a></if> <elsif c='1'/> <else><if/></else>b</q>"
        ).map treeEvents = .ok [.text "a<",
          .start "if" [] false, .text ":x", .start "a" [("sep", ", ")] false, .text ":y", .stop "a",
          .stop "if", .start "elsif" [("c", "1")] false, .stop "elsif",
          .start "else" [] false, .start "if" [] false, .stop "if", .stop "else", .text "  b"] := by
    decide +kernel
  obtain ⟨nodes, hparse, htree⟩ := exists_nodes_of_map hmap
  exact ⟨nodes, hparse, htree, parse_obeys.1 _ nodes hparse⟩

end Template

end SqlTemplate
