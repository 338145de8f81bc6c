import SqlTemplate.Proofs.Catalog.Index
/-!
What a declaration can do to a catalog.

`declare_effect` says it once for all kinds of declaration: nothing, make the catalog ready again,
add a parameter of a new name, or change the parameter of that name. An added or changed parameter is
`Valid`: its values are of its one family, none of them is a sequence, and its capacity goes with
its direction. A changed parameter `Continues` the one before: its name and its shape stay, and so
does a family that it has. A number of rows is only ever set where there was none.
-/

namespace SqlTemplate

/-! ## What a parameter holds -/

/-- A parameter as every run leaves it. -/
structure Spec.Valid (s : Spec) : Prop where
  /-- No value is a sequence. -/
  flat : ∀ v ∈ s.payload.elements, v.seq? = none
  /-- Every value that is not null is of the family of the parameter. -/
  family : ∀ v ∈ s.payload.elements, v.isNull = false → ∃ f, v.family? = some f ∧ s.family = some f
  /-- Only a pure output has no associative value. -/
  full : s.payload = .assoc ∅ → s.direction = .output
  /-- Exactly the associative outputs have a capacity. -/
  capacity : s.capacity.isSome ↔ s.payload.shape = .assoc ∧ s.direction.isOutput
  capacity_pos : ∀ k, s.capacity = some k → 1 ≤ k
  /-- A pure output holds nothing yet, and has no family. -/
  pure_output : s.direction = .output →
    (s.payload = .scalar .null ∨ s.payload = .assoc ∅) ∧ s.family = none

/-- A parameter carries another on: the name and the shape stay, and so does a family. -/
structure Spec.Continues (t s : Spec) : Prop where
  name : t.name = s.name
  shape : t.payload.shape = s.payload.shape
  family : ∀ f, s.family = some f → t.family = some f

/-- A parameter is valid, and has a value for each of so many rows if it is an array. -/
structure Spec.Fits (s : Spec) (count : Option Nat) : Prop where
  valid : s.Valid
  rows : ∀ values, s.payload = .array values → count = some values.length

def CountStep (old new : Option Nat) : Prop := new = old ∨ old = none ∧ ∃ n, new = some n ∧ 1 ≤ n

theorem CountStep.keeps {old new : Option Nat} (h : CountStep old new) {n : Nat}
    (hn : old = some n) : new = some n := by
  rcases h with h | ⟨h, _⟩
  · rw [h, hn]
  · rw [h] at hn; cases hn

theorem CountStep.pos {old new : Option Nat} (h : CountStep old new)
    (hold : ∀ n, old = some n → 1 ≤ n) : ∀ n, new = some n → 1 ≤ n := by
  intro n hn
  rcases h with h | ⟨_, m, hm, hpos⟩
  · exact hold n (h ▸ hn)
  · rw [hm] at hn
    cases hn
    exact hpos

theorem Spec.Fits.mono {s : Spec} {old new : Option Nat} (h : s.Fits old) (hc : CountStep old new) :
    s.Fits new :=
  ⟨h.valid, fun values hv => hc.keeps (h.rows values hv)⟩

/-- A catalog as every run leaves it. The index is exact, a number of rows is at least one, and each
parameter is valid and has a value for each row if it is an array; so there is no array while the
number of rows is not known. -/
structure Catalog.Valid (c : Catalog) : Prop where
  indexed : c.Indexed
  count_pos : ∀ n, c.count = some n → 1 ≤ n
  fits : ∀ s ∈ c.specs, s.Fits c.count

/-- A payload that an input may take: values of one family at most, none of them a sequence, and at
least one value if it is associative. -/
structure Payload.Bindable (p : Payload) (family : Option Family) : Prop where
  flat : ∀ v ∈ p.elements, v.seq? = none
  family : ∀ v ∈ p.elements, ∀ f, v.family? = some f → family = some f
  full : p ≠ .assoc ∅

theorem Value.exists_family {v : Value} (hs : v.seq? = none) (hn : v.isNull = false) :
    ∃ f, v.family? = some f := by
  cases v with
  | null => cases hn
  | seq items => cases hs
  | _ => exact ⟨_, rfl⟩

/-- One step of the search for a common family: the value is no sequence, and what is found after it
covers what was found before and the family of the value. -/
theorem commonFamily_cons_ok {found family : Option Family} {v : Value} {rest : List Value}
    (h : commonFamily found (v :: rest) = .ok family) :
    v.seq? = none ∧ ∃ next, commonFamily next rest = .ok family ∧
      (∀ f, found = some f → next = some f) ∧ ∀ f, v.family? = some f → next = some f := by
  have hseq : v.seq? = none := by
    cases v with
    | seq items => cases h
    | _ => rfl
  refine ⟨hseq, ?_⟩
  unfold commonFamily at h
  split at h
  · contradiction
  · cases h
  · rename_i w ws _ heq
    cases heq
    split at h
    · rename_i hnone
      exact ⟨_, h, fun f hf => hf, fun f hf => absurd (hnone.symm.trans hf) (by simp)⟩
    · rename_i f hf
      exact ⟨some f, h, fun g hg => absurd hg (by simp), fun g hg => hf.symm.trans hg⟩
    · rename_i e f hf
      split at h
      · rename_i heq
        subst heq
        exact ⟨some e, h, fun g hg => hg, fun g hg => hf.symm.trans hg⟩
      · cases h

/-- The common family of values is the family of each that has one, and of what was found before;
and none of the values is a sequence. -/
theorem commonFamily_ok {found family : Option Family} {vs : List Value}
    (h : commonFamily found vs = .ok family) :
    (∀ f, found = some f → family = some f) ∧
    ∀ v ∈ vs, v.seq? = none ∧ ∀ f, v.family? = some f → family = some f := by
  induction vs generalizing found with
  | nil => cases h; exact ⟨fun f hf => hf, fun v hv => by cases hv⟩
  | cons v rest ih =>
    obtain ⟨hseq, next, hrest, hbefore, hv⟩ := commonFamily_cons_ok h
    obtain ⟨hnext, hall⟩ := ih hrest
    refine ⟨fun f hf => hnext f (hbefore f hf), fun w hw => ?_⟩
    rcases List.mem_cons.mp hw with rfl | hw
    · exact ⟨hseq, fun f hf => hnext f (hv f hf)⟩
    · exact hall w hw

theorem Payload.Bindable.of_commonFamily {p : Payload} {family : Option Family}
    (h : commonFamily none p.elements = .ok family) (hp : p ≠ .assoc ∅) : p.Bindable family where
  flat v hv := ((commonFamily_ok h).2 v hv).1
  family v hv := ((commonFamily_ok h).2 v hv).2
  full := hp

namespace Catalog

variable {c : Catalog} {s : Spec} {p : Payload} {family : Option Family}

theorem clash?_eq_none (h : clash? s p family = none) :
    s.payload.shape = p.shape ∧ ∀ e f, s.family = some e → family = some f → e = f := by
  unfold clash? at h
  split at h
  · cases h
  · rename_i hshape
    refine ⟨Decidable.not_not.mp hshape, fun e f he hf => ?_⟩
    simp only [he, hf] at h
    split at h
    · assumption
    · cases h

/-! ## The parameters that declarations leave -/

theorem valid_input (name : String) (hb : p.Bindable family) :
    Spec.Valid ⟨name, p, .input, none, family⟩ where
  flat := hb.flat
  family v hv hn := by
    obtain ⟨f, hf⟩ := Value.exists_family (hb.flat v hv) hn
    exact ⟨f, hf, hb.family v hv f hf⟩
  full hp := absurd hp hb.full
  capacity := by simp [Engine.Direction.isOutput]
  capacity_pos k hk := by cases hk
  pure_output h := by cases h

theorem valid_rebound (hs : s.Valid) (hb : p.Bindable family) (hc : clash? s p family = none) :
    (rebound p family s).Valid where
  flat := hb.flat
  family v hv hn := by
    obtain ⟨f, hf⟩ := Value.exists_family (hb.flat v hv) hn
    have hfam := hb.family v hv f hf
    refine ⟨f, hf, ?_⟩
    cases he : s.family with
    | none => simp only [rebound, he, Option.none_or, hfam]
    | some e =>
      rw [(clash?_eq_none hc).2 e f he hfam] at he
      simp only [rebound, he, Option.some_or]
  full hp := absurd hp hb.full
  capacity := by
    have hout : s.direction.withInput.isOutput = s.direction.isOutput := by
      cases s.direction <;> rfl
    simp only [rebound, hout, ← (clash?_eq_none hc).1]
    exact hs.capacity
  capacity_pos := hs.capacity_pos
  pure_output h := by
    simp only [rebound] at h
    cases hd : s.direction <;> rw [hd] at h <;> cases h

theorem direction_of_withOutput {d : Engine.Direction} (h : d.withOutput = .output) :
    d = .output := by
  cases d <;> first | rfl | cases h

theorem isOutput_withOutput (d : Engine.Direction) : d.withOutput.isOutput = true := by
  cases d <;> rfl

theorem isInput_withInput (d : Engine.Direction) : d.withInput.isInput = true := by
  cases d <;> rfl

theorem isInput_withOutput (d : Engine.Direction) : d.withOutput.isInput = d.isInput := by
  cases d <;> rfl

theorem valid_withOutput (hs : s.Valid) (hshape : s.payload.shape ≠ .assoc) :
    Spec.Valid { s with direction := s.direction.withOutput } where
  flat := hs.flat
  family := hs.family
  full hp := by
    have hp : s.payload = .assoc ∅ := hp
    exact absurd (by rw [hp]; rfl) hshape
  capacity := by
    constructor
    · intro hk
      exact absurd (hs.capacity.mp hk).1 hshape
    · rintro ⟨hassoc, _⟩
      exact absurd hassoc hshape
  capacity_pos := hs.capacity_pos
  pure_output h := hs.pure_output (direction_of_withOutput h)

theorem valid_withCapacity {k : Nat} (hs : s.Valid) (hshape : s.payload.shape = .assoc)
    (hk : 1 ≤ k) :
    Spec.Valid { s with direction := s.direction.withOutput, capacity := some k } where
  flat := hs.flat
  family := hs.family
  full hp := by
    have hd := hs.full hp
    simp only [hd, Engine.Direction.withOutput]
  capacity := by simp [hshape, isOutput_withOutput]
  capacity_pos j hj := by cases hj; exact hk
  pure_output h := hs.pure_output (direction_of_withOutput h)

theorem valid_output (name : String) : Spec.Valid ⟨name, .scalar .null, .output, none, none⟩ where
  flat v hv := by rw [List.mem_singleton.mp hv]; rfl
  family v hv hn := by rw [List.mem_singleton.mp hv] at hn; cases hn
  full hp := by cases hp
  capacity := by simp [Payload.shape]
  capacity_pos k hk := by cases hk
  pure_output _ := ⟨.inl rfl, rfl⟩

theorem valid_assocOutput {k : Nat} (name : String) (hk : 1 ≤ k) :
    Spec.Valid ⟨name, .assoc ∅, .output, some k, none⟩ where
  flat v hv := by cases hv
  family v hv := by cases hv
  full _ := rfl
  capacity := by simp [Payload.shape, Engine.Direction.isOutput]
  capacity_pos j hj := by cases hj; exact hk
  pure_output _ := ⟨.inr rfl, rfl⟩

/-! ## What a declaration does -/

/-- What a declaration of `name` can make of a catalog: it is refused and leaves the catalog as it
is, or ready for its next execution; or it adds a parameter of a new name, or changes the parameter
of that name. -/
inductive Effect (c : Catalog) (name : String) : Catalog → Prop
  | same : Effect c name c
  | ready : Effect c name c.reset
  | added (s : Spec) (count : Option Nat) (hnew : c.get? name = none) (hname : s.name = name)
      (hfits : s.Fits count) (hcount : CountStep c.count count) :
      Effect c name { c.reset.push s with count }
  | changed (s : Spec) (f : Spec → Spec) (count : Option Nat) (hs : c.get? name = some s)
      (hkeeps : (f s).Continues s) (hfits : (f s).Fits count) (hcount : CountStep c.count count) :
      Effect c name { c.reset.update name f with count }

theorem bind_cases (c : Catalog) (name : String) (p : Payload) (family : Option Family) :
    (∃ s misuse, c.get? name = some s ∧ clash? s p family = some misuse ∧
      c.bind name p family = (.error (.argument name misuse), c.reset)) ∨
    (c.get? name = none ∧
      c.bind name p family = (.ok (), c.reset.push ⟨name, p, .input, none, family⟩)) ∨
    ∃ s, c.get? name = some s ∧ clash? s p family = none ∧
      c.bind name p family = (.ok (), c.reset.update name (rebound p family)) := by
  unfold bind
  cases hs : c.get? name with
  | none => exact .inr (.inl ⟨rfl, rfl⟩)
  | some s =>
    cases hc : clash? s p family with
    | some misuse => exact .inl ⟨s, misuse, rfl, hc, by simp only [hc]⟩
    | none => exact .inr (.inr ⟨s, rfl, hc, by simp only [hc]⟩)

theorem continues_rebound (hc : clash? s p family = none) : (rebound p family s).Continues s where
  name := rfl
  shape := (clash?_eq_none hc).1.symm
  family f hf := by simp only [rebound, hf, Option.some_or]

/-- The values of an array are as many as the rows, and a number of rows that it sets is not
zero. -/
theorem countStep_rowValues {count : Option Nat} {values kept : List Value}
    (h : rowValues count values = .ok kept) :
    CountStep count (some kept.length) := by
  unfold rowValues at h
  cases count with
  | some n =>
    simp only at h
    split at h
    · cases h
    · rename_i hn
      cases h
      exact .inl (by rw [List.length_take, Nat.min_eq_left (by omega)])
  | none =>
    simp only at h
    split at h
    · cases h
    · rename_i hne
      cases h
      refine .inr ⟨rfl, values.length, rfl, ?_⟩
      cases values with
      | nil => exact absurd rfl hne
      | cons v vs => simp

section
variable (h : c.Valid) (name : String)
include h

/-- A payload that is refused leaves the catalog ready; one that is taken is that of a new or of a
changed parameter, whatever number of rows the catalog is given with it. -/
theorem bind_effect {count : Option Nat} (hb : p.Bindable family)
    (hrows : ∀ values, p = .array values → count = some values.length)
    (hcount : CountStep c.count count) :
    (∃ e, c.bind name p family = (.error e, c.reset)) ∨
    ∃ d, c.bind name p family = (.ok (), d) ∧ Effect c name { d with count } := by
  rcases bind_cases c name p family with ⟨s, misuse, _, _, he⟩ | ⟨hnew, he⟩ | ⟨s, hs, hc, he⟩
  · exact .inl ⟨_, he⟩
  · exact .inr ⟨_, he, .added _ count hnew rfl ⟨valid_input name hb, hrows⟩ hcount⟩
  · have hvalid := valid_rebound (h.fits s (h.indexed.get?_eq_some.mp hs).1).valid hb hc
    exact .inr ⟨_, he, .changed s _ count hs (continues_rebound hc) ⟨hvalid, hrows⟩ hcount⟩

theorem bind_effect_same_count (hb : p.Bindable family) (hp : p.shape ≠ .array) :
    Effect c name (c.bind name p family).2 := by
  have hrows : ∀ values, p = .array values → c.count = some values.length := by
    rintro values rfl
    exact absurd rfl hp
  rcases bind_effect h name hb hrows (.inl rfl) with ⟨e, he⟩ | ⟨d, he, heff⟩
  · rw [he]
    exact .ready
  · have hd : d.count = c.count := by
      rcases bind_cases c name p family with ⟨_, _, _, _, h⟩ | ⟨_, h⟩ | ⟨_, _, _, h⟩ <;>
        rw [h] at he <;> cases he
      · rfl
      · exact update_count ..
    rw [he]
    rw [← hd] at heff
    exact heff

theorem bindScalar_effect (v : Value) : Effect c name (c.bindScalar name v).2 := by
  have hb : v.seq? = none → Payload.Bindable (.scalar v) v.family? := fun hv =>
    { flat := fun w hw => by rw [List.mem_singleton.mp hw]; exact hv
      family := fun w hw f hf => by rw [List.mem_singleton.mp hw] at hf; exact hf
      full := fun h => by cases h }
  cases v with
  | seq items => exact .same
  | _ => exact bind_effect_same_count h name (hb rfl) (fun h => by cases h)

theorem bindArray_effect (values : List Value) : Effect c name (c.bindArray name values).2 := by
  unfold bindArray
  cases hk : rowValues c.count values with
  | error misuse => exact .same
  | ok kept =>
    simp only
    cases hf : commonFamily none kept with
    | error misuse => exact .same
    | ok family =>
      have hb : Payload.Bindable (.array kept) family := .of_commonFamily hf (fun h => by cases h)
      have hrows : ∀ values, Payload.array kept = .array values →
          some kept.length = some values.length := by
        rintro _ ⟨⟩
        rfl
      rcases bind_effect h name hb hrows (countStep_rowValues hk) with
        ⟨e, he⟩ | ⟨d, he, heff⟩
      · simp only [he]
        exact .ready
      · simp only [he]
        exact heff

theorem bindAssoc_effect (entries : Option (List (UInt32 × Value))) :
    Effect c name (c.bindAssoc name entries).2 := by
  unfold bindAssoc
  cases entries with
  | none => exact .same
  | some es =>
    simp only
    split
    · exact .same
    · rename_i hne
      cases hf : commonFamily none (Dict.ofList es).values with
      | error misuse => exact .same
      | ok family =>
        have hfull : Payload.assoc (Dict.ofList es) ≠ .assoc ∅ := by
          intro h
          rw [Payload.assoc.inj h] at hne
          exact hne rfl
        exact bind_effect_same_count h name (.of_commonFamily hf hfull) (fun h => by cases h)

theorem declareOutput_effect : Effect c name (c.declareOutput name).2 := by
  unfold declareOutput
  cases hs : c.get? name with
  | none =>
    exact .added _ c.count hs rfl ⟨valid_output name, fun values h => by cases h⟩ (.inl rfl)
  | some s =>
    simp only
    split
    · exact .same
    · rename_i hshape
      have hfits := h.fits s (h.indexed.get?_eq_some.mp hs).1
      have := Effect.changed (f := fun s => { s with direction := s.direction.withOutput }) s c.count
        hs ⟨rfl, rfl, fun f hf => hf⟩ ⟨valid_withOutput hfits.valid hshape, hfits.rows⟩ (.inl rfl)
      rwa [update_reset_with_count] at this

theorem declareAssocOutput_effect (k : Nat) : Effect c name (c.declareAssocOutput name k).2 := by
  unfold declareAssocOutput
  split
  · exact .same
  · rename_i hk
    cases hs : c.get? name with
    | none =>
      exact .added _ c.count hs rfl
        ⟨valid_assocOutput name (by omega), fun values h => by cases h⟩ (.inl rfl)
    | some s =>
      simp only
      split
      · exact .same
      · rename_i hshape
        have hfits := h.fits s (h.indexed.get?_eq_some.mp hs).1
        have hvalid := valid_withCapacity hfits.valid (Decidable.not_not.mp hshape)
          (Nat.pos_of_ne_zero hk)
        have := Effect.changed
          (f := fun s => { s with direction := s.direction.withOutput, capacity := some k })
          s c.count hs ⟨rfl, rfl, fun f hf => hf⟩ ⟨hvalid, hfits.rows⟩ (.inl rfl)
        rwa [update_reset_with_count] at this

theorem declare_effect (d : Declaration) : Effect c d.name (c.declare d).2 := by
  cases d with
  | scalar name v => exact bindScalar_effect h name v
  | array name values => exact bindArray_effect h name values
  | assoc name entries => exact bindAssoc_effect h name entries
  | assocList name values => exact bindAssoc_effect h name _
  | output name => exact declareOutput_effect h name
  | assocOutput name k => exact declareAssocOutput_effect h name k

end

end Catalog

end SqlTemplate
