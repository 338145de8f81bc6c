import SqlTemplate.Proofs.Catalog.Acceptance
import SqlTemplate.Proofs.Command.Lists
/-!
The lists of a command and the inputs behind them.

A list that was taken is known by its number of repetitions and by its values, and each of its
values went into the catalog as a scalar of its own. The three are kept apart, and other calls come in
between. What is proved:
  1. `Catalog.HasInput.declare` and `Catalog.HasInput.of_run`: a name that goes in as a scalar does so
     after every declaration, accepted or refused, and after every run.
  2. `Step.backed`: so a step keeps a command `Backed`, whether it binds a list, is refused one in the
     middle, or does something else.
  3. `expansion_backed`: in every reachable command the expansion of a list gives a placeholder for
     each of its values, and all of them are declared.
-/

namespace SqlTemplate

namespace Catalog

variable {c d : Catalog} {name : String}

/-! ## Inputs -/

def HasInput (c : Catalog) (name : String) : Prop :=
  ∃ s, c.get? name = some s ∧ s.payload.shape = .scalar ∧ s.direction.isInput = true

theorem Holds.hasInput {v : Value} (h : c.Holds name v) : c.HasInput name := by
  obtain ⟨s, hs, hpayload, hinput⟩ := h
  exact ⟨s, hs, by rw [hpayload]; rfl, hinput⟩

theorem HasInput.declares (h : c.HasInput name) : c.declares name = true := by
  obtain ⟨s, hs, _⟩ := h
  obtain ⟨i, hi, _⟩ := Option.bind_eq_some_iff.mp hs
  rw [Catalog.declares, Dict.contains, hi]
  rfl

/-- An accepted declaration of a declared name leaves its parameter the shape, and an input is one
after it. -/
theorem Makes.keeps {decl : Declaration} {t s : Spec} {count : Option Nat}
    (h : c.Makes decl t count) (ha : c.Accepts decl) (hs : c.get? decl.name = some s) :
    t.payload.shape = s.payload.shape ∧
      (s.direction.isInput = true → t.direction.isInput = true) := by
  have hbound : ∀ p : Payload, c.get? decl.name = some s →
      (c.bound decl.name p).direction.isInput = true := fun p hs => by
    simp only [bound, hs]
    exact isInput_withInput s.direction
  cases h with
  | scalar name v => exact ⟨(ha.2 s hs).1.symm, fun _ => hbound _ hs⟩
  | array name values rows hrows => exact ⟨(ha.2.2.2 s hs).1.symm, fun _ => hbound _ hs⟩
  | assoc _ _ _ _ | assocList _ _ _ _ =>
    obtain ⟨_, _, _, _, htakes⟩ := ha
    exact ⟨(htakes s hs).1.symm, fun _ => hbound _ hs⟩
  | newOutput name hnew => exact absurd (hnew.symm.trans hs) (by simp)
  | newAssocOutput name capacity hnew => exact absurd (hnew.symm.trans hs) (by simp)
  | output _ u hu | assocOutput _ _ u hu =>
    cases hu.symm.trans hs
    exact ⟨rfl, fun hinput => (isInput_withOutput _).trans hinput⟩

theorem HasInput.declare (h : c.HasInput name) (hv : c.Valid) (decl : Declaration) :
    (c.declare decl).2.HasInput name := by
  obtain ⟨s, hs, hshape, hinput⟩ := h
  have hout := declare_outcome hv decl
  generalize c.declare decl = r at hout
  cases hout with
  | refused _ => exact ⟨s, hs, hshape, hinput⟩
  | @accepted t d ha ht hreplaced =>
    by_cases hname : name = t.name
    · rw [hname, ht.name_eq hv.indexed] at hs
      obtain ⟨hkept, hdirection⟩ := ht.keeps ha hs
      exact ⟨t, hname ▸ hreplaced.found, hkept.trans hshape, hdirection hinput⟩
    · exact ⟨s, (hreplaced.others name hname).trans hs, hshape, hinput⟩

theorem HasInput.step (h : c.HasInput name) (hv : c.Valid) (hs : Step c d) : d.HasInput name := by
  cases hs with
  | declare decl => exact h.declare hv decl
  | reset => exact h
  | validate names => exact h
  | execute sql used engine s =>
    obtain ⟨phase, hphase⟩ := execute_catalog c sql used engine s
    rw [hphase]
    exact h

theorem HasInput.of_run (h : c.HasInput name) (hv : c.Valid) (hr : Run c d) : d.HasInput name := by
  induction hr with
  | refl => exact h
  | tail hr hs ih => exact ih.step (valid_of_run hr hv) hs

end Catalog

namespace Command

variable {c d : Command} {name : String}

/-! ## Lists -/

/-- Exactly the lists with a number of repetitions have values, as many as that, and an input for each
of them. -/
structure Backed (c : Command) : Prop where
  keys : ∀ name, c.repeats.contains name = c.lists.contains name
  values : ∀ name n, c.repeats.get? name = some n →
    ∃ values, c.lists.get? name = some (.seq values) ∧ values.length = n
  inputs : ∀ name n, c.repeats.get? name = some n → ∀ k < n,
    c.catalog.HasInput (Placeholder.numbered name k)

theorem Initial.backed (h : Initial c) : c.Backed := by
  have hnone : c.repeats = ∅ ∧ c.lists = ∅ := by
    cases h with
    | ofText text => exact ⟨rfl, rfl⟩
    | withCount text n c h =>
      unfold Command.withCount at h
      split at h <;> cases h
      exact ⟨rfl, rfl⟩
  refine ⟨fun name => ?_, fun name n hn => ?_, fun name n hn => ?_⟩
  · rw [hnone.1, hnone.2]
    rfl
  · rw [hnone.1] at hn
    cases hn
  · rw [hnone.1] at hn
    cases hn

/-- What a step does to the lists: nothing, or it adds one whose values were all taken. -/
theorem Step.lists_cases (h : Step c d) :
    (d.repeats = c.repeats ∧ d.lists = c.lists) ∨
    ∃ name values, bindNumbered c.catalog name 0 values = (.ok (), d.catalog) ∧
      d.repeats = c.repeats.insert name values.length ∧
      d.lists = c.lists.insert name (.seq values) := by
  cases h with
  | declare decl => exact .inl ⟨rfl, rfl⟩
  | setText text => exact .inl ⟨rfl, rfl⟩
  | bindList name values =>
    unfold Command.bindList
    rcases hb : bindNumbered c.catalog name 0 values with ⟨e | u, catalog⟩
    · exact .inl ⟨rfl, rfl⟩
    · exact .inr ⟨name, values, hb, rfl, rfl⟩
  | execute engine s =>
    unfold Command.execute
    cases c.render with
    | error e => exact .inl ⟨rfl, rfl⟩
    | ok sql => exact .inl ⟨rfl, rfl⟩

theorem Step.backed (hs : Step c d) (h : c.Backed) (hv : c.catalog.Valid) : d.Backed := by
  have hold : ∀ other n, c.repeats.get? other = some n → ∀ k < n,
      d.catalog.HasInput (Placeholder.numbered other k) := fun other n hn k hk =>
    (h.inputs other n hn k hk).of_run hv hs.catalog
  rcases hs.lists_cases with ⟨hrepeats, hlists⟩ | ⟨name, values, hok, hrepeats, hlists⟩
  · refine ⟨?_, ?_, ?_⟩
    · rw [hrepeats, hlists]
      exact h.keys
    · rw [hrepeats, hlists]
      exact h.values
    · rw [hrepeats]
      exact hold
  · have hnew : ∀ k < values.length, d.catalog.HasInput (Placeholder.numbered name k) := by
      intro k hk
      have hholds := (bindNumbered_holds hv hok).1 k values[k] (List.getElem?_eq_getElem hk)
      rw [Nat.zero_add] at hholds
      exact hholds.hasInput
    -- The list of the name is the new one, the others are those there were.
    refine ⟨fun other => ?_, fun other n hn => ?_, fun other n hn => ?_⟩
    · rw [hrepeats, hlists, Dict.contains, Dict.contains, Dict.get?_insert_ite,
        Dict.get?_insert_ite]
      split
      · rfl
      · exact h.keys other
    · rw [hrepeats, Dict.get?_insert_ite] at hn
      rw [hlists, Dict.get?_insert_ite]
      split at hn
      · rename_i hother
        cases hn
        exact ⟨values, if_pos hother, rfl⟩
      · rename_i hother
        rw [if_neg hother]
        exact h.values other n hn
    · rw [hrepeats, Dict.get?_insert_ite] at hn
      split at hn
      · rename_i hother
        cases hn
        rw [hother]
        exact hnew
      · exact hold other n hn

theorem Reachable.backed (h : c.Reachable) : c.Backed := by
  obtain ⟨c₀, h₀, hr⟩ := h
  induction hr with
  | refl => exact h₀.backed
  | tail hr hs ih => exact hs.backed ih (Catalog.valid_of_run (Run.catalog hr) h₀.catalog.valid)

theorem context_of_list {v : Value} (h : c.lists.get? name = some v) :
    c.context.get? name = some v := by
  rw [context, Dict.get?_insertAll_eq_some_iff, Dict.lastEntry_iff_mem c.lists.nodup_keys]
  exact .inl (Dict.get?_eq_some_iff.mp h)

/-! ## Expansions -/

/-- In every reachable command exactly the lists with a number of repetitions have values. Conditions
see as many values as that, and an expansion gives as many placeholders, each of which is declared as
a scalar that goes in. -/
theorem expansion_backed (h : c.Reachable) :
    c.repeats.keys = c.lists.keys ∧
    ∀ name n, c.repeats.get? name = some n →
      (∃ values, c.context.get? name = some (.seq values) ∧ values.length = n) ∧
      (∀ k < n, c.catalog.HasInput (Placeholder.numbered name k)) ∧
      ∀ sep, let names := (List.range n).map (Placeholder.numbered name)
        Template.renderNode c.context c.repeats (.expand name sep) =
          .ok (String.ofList (Text.joined sep.toList (names.map fun m => ':' :: m.toList))) ∧
        names.length = n ∧ c.catalog.validate names = .ok () := by
  have hbacked := h.backed
  refine ⟨Dict.keys_eq_of_contains hbacked.keys, fun name n hn => ⟨?_, ?_, fun sep => ?_⟩⟩
  · obtain ⟨values, hvalues, hlength⟩ := hbacked.values name n hn
    exact ⟨values, context_of_list hvalues, hlength⟩
  · exact hbacked.inputs name n hn
  · intro names
    refine ⟨?_, by simp [names], ?_⟩
    · simp only [names, Template.renderNode, Template.expansionCount?, hn, Template.expanded,
        List.map_map]
      rfl
    · have hnone : ((List.range n).map (Placeholder.numbered name)).find?
          (fun m => !c.catalog.declares m) = none := by
        apply List.find?_eq_none.mpr
        intro m hm
        obtain ⟨k, hk, rfl⟩ := List.mem_map.mp hm
        simp [(hbacked.inputs name n hn k (List.mem_range.mp hk)).declares]
      rw [Catalog.validate, hnone]

/-- A list whose first input gives a value out as well, and which is refused when it is bound again
with three values: its expansion is still one of two placeholders, and both are declared. -/
theorem expansion_backed_refused :
    let c := ((ofText "").bindList "ids" [.int 1, .int 2]).2
    let d := (c.declare (.output "ids0")).2
    let e := (d.bindList "ids" [.int 3, .text "x", .int 5]).2
    e.Reachable ∧ e.repeats.get? "ids" = some 2 ∧
      Template.renderNode e.context e.repeats (.expand "ids" ",") = .ok ":ids0,:ids1" ∧
      e.catalog.validate ["ids0", "ids1"] = .ok () := by
  intro c d e
  have he : e.Reachable :=
    ⟨_, .ofText "", .tail (.tail (.single (.bindList _ _)) (.declare _)) (.bindList _ _)⟩
  have hrepeats : e.repeats.get? "ids" = some 2 := by decide
  obtain ⟨_, hlists⟩ := expansion_backed he
  obtain ⟨_, _, hexpansion⟩ := hlists "ids" 2 hrepeats
  obtain ⟨hrender, _, hvalid⟩ := hexpansion ","
  exact ⟨he, hrepeats, hrender.trans (by decide), hvalid⟩

end Command

end SqlTemplate
