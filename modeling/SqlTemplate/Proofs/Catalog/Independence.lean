import SqlTemplate.Proofs.Catalog.Acceptance
import SqlTemplate.Proofs.Catalog.Lifecycle
/-!
Declarations of different names.

A declaration reads the parameter of its name, and the number of rows if it is an array; it changes
the same. What is proved:
  1. `declare_local`: two catalogs that are `AlikeFor` a declaration answer it alike, have the same
     parameter of its name afterwards, and become ready or not together.
  2. `get?_declare_of_ne` and `count_declare`: what a declaration leaves as it is. These are the other
     names, and the number of rows if it is known or the declaration is not an array.
  3. `sameView_of_get?`: the names, the number of rows and the phase are all that can be seen of a
     catalog, but for the order of its parameters.
  4. `declare_comm`: so two declarations of different names can be made in either order, if they do not
     both want to set the number of rows.
-/

namespace SqlTemplate

def Declaration.isArray : Declaration → Bool
  | .array _ _ => true
  | _ => false

namespace Catalog

variable {c d e : Catalog} {name : String}

/-! ## What a declaration reads -/

/-- Two catalogs have the same of what a declaration reads: the parameter of its name, and the number
of rows if it is an array. -/
structure AlikeFor (decl : Declaration) (c e : Catalog) : Prop where
  get? : c.get? decl.name = e.get? decl.name
  count : decl.isArray = true → c.count = e.count

structure DoneAlike (name : String) (c e : Catalog) (r u : Except Error Unit × Catalog) : Prop where
  answer : r.1 = u.1
  get? : r.2.get? name = u.2.get? name
  phase : r.2.phase = c.phase ∧ u.2.phase = e.phase ∨ r.2.phase = .building ∧ u.2.phase = .building
  count : c.count = e.count → r.2.count = u.2.count

section
variable (hc : c.Indexed) (he : e.Indexed) (hname : c.get? name = e.get? name)
include hname

theorem doneAlike_same (answer : Except Error Unit) :
    DoneAlike name c e (answer, c) (answer, e) :=
  ⟨rfl, hname, .inl ⟨rfl, rfl⟩, fun h => h⟩

theorem doneAlike_reset (answer : Except Error Unit) :
    DoneAlike name c e (answer, c.reset) (answer, e.reset) :=
  ⟨rfl, hname, .inr ⟨rfl, rfl⟩, fun h => h⟩

include hc he

theorem doneAlike_push (answer : Except Error Unit) (s : Spec) :
    DoneAlike name c e (answer, c.reset.push s) (answer, e.reset.push s) where
  answer := rfl
  get? := by
    rw [Indexed.get?_push (c := c.reset) hc, Indexed.get?_push (c := e.reset) he]
    exact congrArg _ hname
  phase := .inr ⟨rfl, rfl⟩
  count h := h

theorem doneAlike_update (answer : Except Error Unit) (f : Spec → Spec) :
    DoneAlike name c e (answer, c.reset.update name f) (answer, e.reset.update name f) where
  answer := rfl
  get? := by
    rw [Indexed.get?_update (c := c.reset) hc, Indexed.get?_update (c := e.reset) he, if_pos rfl,
      if_pos rfl]
    exact congrArg (Option.map f) hname
  phase := .inr ⟨update_phase .., update_phase ..⟩
  count h := by
    rw [update_count, update_count]
    exact h

/-! ## Kinds of declarations -/

theorem bind_local (p : Payload) (family : Option Family) :
    DoneAlike name c e (c.bind name p family) (e.bind name p family) := by
  unfold bind
  rw [← hname]
  cases c.get? name with
  | none => exact doneAlike_push hc he hname _ _
  | some s =>
    cases hclash : clash? s p family with
    | some misuse =>
      simp only [hclash]
      exact doneAlike_reset hname _
    | none =>
      simp only [hclash]
      exact doneAlike_update hc he hname _ _

theorem bindScalar_local (v : Value) :
    DoneAlike name c e (c.bindScalar name v) (e.bindScalar name v) := by
  cases v with
  | seq items => exact doneAlike_same hname _
  | _ => exact bind_local hc he hname _ _

theorem bindArray_local (hcount : c.count = e.count) (values : List Value) :
    DoneAlike name c e (c.bindArray name values) (e.bindArray name values) := by
  unfold bindArray
  rw [← hcount]
  cases rowValues c.count values with
  | error misuse => exact doneAlike_same hname _
  | ok kept =>
    cases hfamily : commonFamily none kept with
    | error misuse =>
      simp only [hfamily]
      exact doneAlike_same hname _
    | ok family =>
      obtain ⟨hanswer, hget, hphase, hsame⟩ := bind_local hc he hname (.array kept) family
      simp only [hfamily]
      generalize c.bind name (.array kept) family = r at *
      generalize e.bind name (.array kept) family = u at *
      obtain ⟨answer, r⟩ := r
      obtain ⟨answer', u⟩ := u
      obtain rfl : answer = answer' := hanswer
      -- A taken array sets one number of rows in both.
      cases answer with
      | error x => exact ⟨rfl, hget, hphase, hsame⟩
      | ok _ => exact ⟨rfl, hget, hphase, fun _ => rfl⟩

theorem bindAssoc_local (entries : Option (List (UInt32 × Value))) :
    DoneAlike name c e (c.bindAssoc name entries) (e.bindAssoc name entries) := by
  cases entries with
  | none => exact doneAlike_same hname _
  | some es =>
    unfold bindAssoc
    simp only
    split
    · exact doneAlike_same hname _
    · split
      · exact doneAlike_same hname _
      · exact bind_local hc he hname _ _

theorem declareOutput_local :
    DoneAlike name c e (c.declareOutput name) (e.declareOutput name) := by
  unfold declareOutput
  rw [← hname]
  cases c.get? name with
  | none => exact doneAlike_push hc he hname _ _
  | some s =>
    simp only
    split
    · exact doneAlike_same hname _
    · exact doneAlike_update hc he hname _ _

theorem declareAssocOutput_local (capacity : Nat) :
    DoneAlike name c e (c.declareAssocOutput name capacity) (e.declareAssocOutput name capacity) := by
  unfold declareAssocOutput
  split
  · exact doneAlike_same hname _
  · rw [← hname]
    cases c.get? name with
    | none => exact doneAlike_push hc he hname _ _
    | some s =>
      simp only
      split
      · exact doneAlike_same hname _
      · exact doneAlike_update hc he hname _ _

end

/-- What a declaration does depends on nothing but what it reads. -/
theorem declare_local (hc : c.Indexed) (he : e.Indexed) {decl : Declaration}
    (h : AlikeFor decl c e) : DoneAlike decl.name c e (c.declare decl) (e.declare decl) := by
  cases decl with
  | scalar name v => exact bindScalar_local hc he h.get? v
  | array name values => exact bindArray_local hc he h.get? (h.count rfl) values
  | assoc name entries => exact bindAssoc_local hc he h.get? entries
  | assocList name values => exact bindAssoc_local hc he h.get? _
  | output name => exact declareOutput_local hc he h.get?
  | assocOutput name capacity => exact declareAssocOutput_local hc he h.get? capacity

/-! ## What a declaration leaves as it is -/

theorem valid_declare (h : c.Valid) (decl : Declaration) : (c.declare decl).2.Valid :=
  (declare_effect h decl).valid h

theorem get?_declare_of_ne (h : c.Valid) {decl : Declaration} (hne : name ≠ decl.name) :
    (c.declare decl).2.get? name = c.get? name := by
  have hout := declare_outcome h decl
  generalize c.declare decl = r at hout
  cases hout with
  | refused _ => rfl
  | accepted _ ht hreplaced => exact hreplaced.others name (ht.name_eq h.indexed ▸ hne)

theorem Makes.count_eq {decl : Declaration} {t : Spec} {count : Option Nat}
    (h : c.Makes decl t count) (hdecl : decl.isArray = false) : count = c.count := by
  cases h with
  | array => cases hdecl
  | _ => rfl

theorem count_declare (h : c.Valid) {decl : Declaration}
    (hcount : c.count.isSome = true ∨ decl.isArray = false) :
    (c.declare decl).2.count = c.count := by
  rcases hcount with hknown | hdecl
  · obtain ⟨n, hn⟩ := Option.isSome_iff_exists.mp hknown
    rw [hn, ((declare_effect h decl).extends h).count n hn]
  · have hout := declare_outcome h decl
    generalize c.declare decl = r at hout
    cases hout with
    | refused _ => rfl
    | accepted _ ht _ => exact ht.count_eq hdecl

/-! ## What can be seen of a catalog -/

/-- Two catalogs that look the same in everything but the order of their parameters. -/
structure SameView (c e : Catalog) : Prop where
  get? : ∀ name, c.get? name = e.get? name
  context : c.context = e.context
  count : c.count = e.count
  length : c.specs.length = e.specs.length
  phase : c.phase = e.phase

theorem perm_specs (hc : c.Indexed) (he : e.Indexed) (h : ∀ name, c.get? name = e.get? name) :
    c.specs.Perm e.specs := by
  have hdistinct {d : Catalog} (hd : d.Indexed) : d.specs.Nodup :=
    List.Pairwise.of_map _ (fun _ _ hne heq => hne (congrArg _ heq)) hd.nodup
  refine (List.perm_ext_iff_of_nodup (hdistinct hc) (hdistinct he)).mpr fun s => ?_
  have hs : c.get? s.name = some s ↔ e.get? s.name = some s := by rw [h]
  rw [hc.get?_eq_some, he.get?_eq_some] at hs
  simpa using hs

/-- Conditions see the inputs of a catalog under their names. -/
theorem get?_context (h : c.Indexed) {v : Value} : c.context.get? name = some v ↔
    ∃ s, c.get? name = some s ∧ s.direction.isInput = true ∧ s.payload.visible = v := by
  have hnodup : (((c.specs.filter (·.direction.isInput)).map fun s =>
      (s.name, s.payload.visible)).map Prod.fst).Nodup := by
    rw [List.map_map]
    exact h.nodup.sublist (List.filter_sublist.map _)
  rw [context, Dict.get?_ofList_eq_some_iff, Dict.lastEntry_iff_mem hnodup]
  simp only [List.mem_map, List.mem_filter, Prod.mk.injEq, h.get?_eq_some]
  constructor
  · rintro ⟨s, ⟨hs, hinput⟩, hname, hv⟩
    exact ⟨s, ⟨hs, hname⟩, hinput, hv⟩
  · rintro ⟨s, ⟨hs, hname⟩, hinput, hv⟩
    exact ⟨s, ⟨hs, hinput⟩, hname, hv⟩

theorem sameView_of_get? (hc : c.Indexed) (he : e.Indexed)
    (h : ∀ name, c.get? name = e.get? name) (hcount : c.count = e.count)
    (hphase : c.phase = e.phase) : SameView c e where
  get? := h
  context := by
    refine Dict.ext_get? fun name => Option.ext fun v => ?_
    rw [get?_context hc, get?_context he, h]
  count := hcount
  length := (perm_specs hc he h).length_eq
  phase := hphase

/-! ## Two declarations -/

section
variable {p q : Declaration}

/-- A declaration of another name changes nothing that a declaration reads, unless both are arrays and
no number of rows is known. -/
theorem alikeFor_declare (h : c.Valid) (hne : p.name ≠ q.name)
    (hcount : c.count.isSome = true ∨ p.isArray = false ∨ q.isArray = false) :
    AlikeFor p c (c.declare q).2 where
  get? := (get?_declare_of_ne h hne).symm
  count hp := by
    rcases hcount with hknown | hp' | hq
    · exact (count_declare h (.inl hknown)).symm
    · rw [hp] at hp'
      cases hp'
    · exact (count_declare h (.inr hq)).symm

/-- If one of two declarations leaves the number of rows as it is, then it does so before and after
the other one. -/
theorem count_declare_comm (h : c.Valid) (hne : p.name ≠ q.name)
    (hp : c.count.isSome = true ∨ p.isArray = false) :
    ((c.declare p).2.declare q).2.count = ((c.declare q).2.declare p).2.count := by
  have hkeeps := count_declare h hp
  have hq : DoneAlike q.name c (c.declare p).2 (c.declare q) ((c.declare p).2.declare q) :=
    declare_local h.indexed (valid_declare h p).indexed
      ⟨(get?_declare_of_ne h hne.symm).symm, fun _ => hkeeps.symm⟩
  have hlater : (c.declare q).2.count.isSome = true ∨ p.isArray = false :=
    hp.imp_left fun hknown => by rwa [count_declare h (.inl hknown)]
  rw [count_declare (valid_declare h q) hlater]
  exact (hq.count hkeeps.symm).symm

/-- Two declarations of different names can be made in either order, unless both are arrays and no
number of rows is known: each has the same answer, and the catalogs that they leave look the same. -/
theorem declare_comm (h : c.Reachable) (hne : p.name ≠ q.name)
    (hcount : c.count.isSome = true ∨ p.isArray = false ∨ q.isArray = false) :
    (c.declare p).1 = ((c.declare q).2.declare p).1 ∧
    ((c.declare p).2.declare q).1 = (c.declare q).1 ∧
    SameView ((c.declare p).2.declare q).2 ((c.declare q).2.declare p).2 := by
  have hv := h.valid
  have hvp := valid_declare hv p
  have hvq := valid_declare hv q
  have hp := declare_local hv.indexed hvq.indexed (alikeFor_declare hv hne hcount)
  have hq := declare_local hv.indexed hvp.indexed
    (alikeFor_declare hv hne.symm (hcount.imp_right Or.symm))
  refine ⟨hp.answer, hq.answer.symm, sameView_of_get? (valid_declare hvp q).indexed
    (valid_declare hvq p).indexed (fun name => ?_) ?_ ?_⟩
  · -- One of the two at most touches a name.
    by_cases hnp : name = p.name
    · subst hnp
      rw [get?_declare_of_ne hvp hne, hp.get?]
    · by_cases hnq : name = q.name
      · subst hnq
        rw [get?_declare_of_ne hvq hne.symm, hq.get?]
      · rw [get?_declare_of_ne hvp hnq, get?_declare_of_ne hv hnp, get?_declare_of_ne hvq hnp,
          get?_declare_of_ne hv hnq]
  · rcases hcount with hknown | hp | hq
    · exact count_declare_comm hv hne (.inl hknown)
    · exact count_declare_comm hv hne (.inr hp)
    · exact (count_declare_comm hv hne.symm (.inr hq)).symm
  · -- The catalog is ready if one of the two makes it so, first or second.
    rcases hp.phase with ⟨hp₁, hp₂⟩ | ⟨hp₁, hp₂⟩ <;>
      rcases hq.phase with ⟨hq₁, hq₂⟩ | ⟨hq₁, hq₂⟩
    · rw [hq₂, hp₁, hp₂, hq₁]
    · rw [hq₂, hp₂, hq₁]
    · rw [hq₂, hp₁, hp₂]
    · rw [hq₂, hp₂]

/-- In an executed catalog, an array that sets the number of rows, and a text for a number: it is
refused in either order, and the catalog is ready. -/
theorem declare_comm_refused :
    let c := ((Catalog.declare ∅ (.scalar "id" (.int 1))).2.execute "delete from t where id = :id"
      ["id"] (Engine.scripted ⟨none, none, none⟩) []).2.1
    let p : Declaration := .array "a" [.int 1, .null]
    let q : Declaration := .scalar "id" (.text "x")
    c.Reachable ∧ c.phase = .executed ∧ c.count = none ∧ p.name ≠ q.name ∧
      (c.count.isSome = true ∨ p.isArray = false ∨ q.isArray = false) ∧
      ((c.declare p).2.declare q).1 = .error (.argument "id" (.otherFamily .number .text)) ∧
      (c.declare p).1 = ((c.declare q).2.declare p).1 ∧
      ((c.declare p).2.declare q).1 = (c.declare q).1 ∧
      SameView ((c.declare p).2.declare q).2 ((c.declare q).2.declare p).2 := by
  intro c p q
  have hc : c.Reachable := ⟨∅, .empty, .tail (.single (.declare _)) (.execute _ _ _ _)⟩
  have hne : p.name ≠ q.name := by decide
  have hcount : c.count.isSome = true ∨ p.isArray = false ∨ q.isArray = false := .inr (.inr rfl)
  exact ⟨hc, rfl, rfl, hne, hcount, by decide +kernel, declare_comm hc hne hcount⟩

end

end Catalog

end SqlTemplate
