import SqlTemplate.Proofs.Catalog.Invariant
/-!
Which declarations a catalog accepts, and what they change.

A bind keeps some of the values that it is given: a scalar its value, an array the values of the
rows, an associative bind the last value of each number. `Accepts` says of each kind of declaration
when the catalog can take it, in terms of the values that are kept, and `Makes` which parameter comes
of it. What is proved:
  1. `commonFamily_eq_ok_iff`: values have a common family exactly if they are `Uniform`, and then it
     is that of the first value that has one.
  2. `bind_outcome`: a payload of uniform values is taken exactly if the parameter of its name takes
     its shape and its values.
  3. `declare_outcome`: a declaration that is not one to accept changes the phase at most; any other
     replaces one parameter, or adds one behind the others.
  4. `declare_exact`: so acceptance is decided, and no other name is touched, in every reachable
     catalog.
  5. `repeated_number_accepted`: what is not kept does not count. Entries that have two families
     between them are accepted if only one of them is kept.
-/

namespace SqlTemplate

open Dict (LastEntry)

/-- Values of which none is a sequence, and which have one family at most. -/
structure Uniform (kept : Value → Prop) : Prop where
  flat : ∀ v, kept v → v.seq? = none
  single : ∀ v w e f, kept v → kept w → v.family? = some e → w.family? = some f → e = f

/-! ## Families -/

section
variable {found family : Option Family} {v : Value} {vs : List Value}

/-- The step of the search for a common family: a value that is no sequence gives its family to the
search, if it has one and none was found, and must not differ from what was found. -/
theorem commonFamily_cons (hv : v.seq? = none) : commonFamily found (v :: vs) =
    match found, v.family? with
    | some e, some f => if e = f then commonFamily found vs else .error (.mixed e f)
    | _, _ => commonFamily (found.or v.family?) vs := by
  cases v with
  | seq items => cases hv
  | null => cases found <;> rfl
  | _ => cases found <;> rfl

theorem commonFamily_eq_ok_iff_found : commonFamily found vs = .ok family ↔
    (∀ v ∈ vs, v.seq? = none) ∧ (∀ v ∈ vs, ∀ f, v.family? = some f → family = some f) ∧
      family = found.or (vs.findSome? Value.family?) := by
  induction vs generalizing found with
  | nil => simp [commonFamily, eq_comm]
  | cons v vs ih =>
    by_cases hv : v.seq? = none
    · rw [commonFamily_cons hv, List.forall_mem_cons, List.forall_mem_cons, List.findSome?_cons]
      cases found with
      | none =>
        cases hf : v.family? with
        | none => simp [hv, ih]
        | some f =>
          simp only [Option.none_or, ih, Option.some_or, hv, Option.some.injEq, true_and]
          grind
      | some e =>
        cases hf : v.family? with
        | none => simp [hv, ih]
        | some f =>
          by_cases he : e = f
          · simp only [he, if_true, ih, hv, Option.some_or]
            grind
          · simp only [he, if_false, Option.some_or]
            grind
    · cases v with
      | seq items => simp [commonFamily, Value.seq?]
      | _ => exact absurd rfl hv

theorem findSome?_family_of_mem (h : Uniform (· ∈ vs)) (hv : v ∈ vs) {f : Family}
    (hf : v.family? = some f) : vs.findSome? Value.family? = some f := by
  obtain ⟨g, hg⟩ : ∃ g, vs.findSome? Value.family? = some g := by
    rw [← Option.isSome_iff_exists, List.findSome?_isSome_iff]
    exact ⟨v, hv, by rw [hf]; rfl⟩
  obtain ⟨w, hw, hwg⟩ := List.exists_of_findSome?_eq_some hg
  rw [hg, h.single w v g f hw hv hwg hf]

/-- Values have a common family exactly if they are uniform. -/
theorem commonFamily_eq_ok_iff : commonFamily none vs = .ok family ↔
    Uniform (· ∈ vs) ∧ family = vs.findSome? Value.family? := by
  rw [commonFamily_eq_ok_iff_found, Option.none_or]
  constructor
  · rintro ⟨hflat, hall, rfl⟩
    refine ⟨⟨hflat, fun v w e f hv hw he hf => ?_⟩, rfl⟩
    have hboth := (hall v hv e he).symm.trans (hall w hw f hf)
    exact Option.some.inj hboth
  · rintro ⟨hu, rfl⟩
    exact ⟨hu.flat, fun v hv f hf => findSome?_family_of_mem hu hv hf, rfl⟩

theorem commonFamily_cases (vs : List Value) :
    (¬ Uniform (· ∈ vs) ∧ ∃ misuse, commonFamily none vs = .error misuse) ∨
    (Uniform (· ∈ vs) ∧ commonFamily none vs = .ok (vs.findSome? Value.family?)) := by
  cases hcommon : commonFamily none vs with
  | error misuse =>
    refine .inl ⟨fun hu => ?_, misuse, rfl⟩
    have hok := commonFamily_eq_ok_iff.mpr ⟨hu, rfl⟩
    rw [hcommon] at hok
    cases hok
  | ok family =>
    obtain ⟨hu, rfl⟩ := commonFamily_eq_ok_iff.mp hcommon
    exact .inr ⟨hu, rfl⟩

end

theorem isEmpty_ofList (es : List (UInt32 × Value)) : (Dict.ofList es).isEmpty = es.isEmpty := by
  rcases List.eq_nil_or_concat es with rfl | ⟨init, e, rfl⟩
  · rfl
  · rw [List.concat_eq_append]
    have hlast : (Dict.ofList (init ++ [e])).get? e.1 = some e.2 :=
      Dict.get?_ofList_eq_some_iff.mpr ⟨init, [], rfl, by simp⟩
    have hmem := Dict.get?_eq_some_iff.mp hlast
    rw [Dict.isEmpty, List.isEmpty_eq_false_iff_exists_mem.mpr ⟨_, hmem⟩]
    simp

theorem mem_values_ofList (es : List (UInt32 × Value)) :
    (· ∈ (Dict.ofList es).values) = fun v => ∃ k, LastEntry es k v := by
  funext v
  rw [Dict.mem_values_iff]
  simp only [Dict.get?_ofList_eq_some_iff]

namespace Catalog

/-! ## Acceptance -/

section
variable (c : Catalog)

/-- Values that a bind keeps can be taken as a payload of the shape: the name is not declared, or its
parameter has the shape, and no family that differs from that of a value. -/
def Takes (name : String) (shape : Shape) (kept : Value → Prop) : Prop :=
  ∀ s, c.get? name = some s → s.payload.shape = shape ∧
    ∀ v e f, kept v → s.family = some e → v.family? = some f → e = f

/-- Entries that can be bound: they are there, at least one, and the last values of the numbers can
be taken. -/
def AcceptsEntries (name : String) (entries : Option (List (UInt32 × Value))) : Prop :=
  ∃ es, entries = some es ∧ es ≠ [] ∧ Uniform (fun v => ∃ k, LastEntry es k v) ∧
    c.Takes name .assoc fun v => ∃ k, LastEntry es k v

/-- A declaration that can be carried out. -/
def Accepts : Declaration → Prop
  | .scalar name v => v.seq? = none ∧ c.Takes name .scalar (· = v)
  | .array name values =>
    let rows := c.count.getD values.length
    1 ≤ rows ∧ rows ≤ values.length ∧ Uniform (· ∈ values.take rows) ∧
      c.Takes name .array (· ∈ values.take rows)
  | .assoc name entries => c.AcceptsEntries name entries
  | .assocList name values => c.AcceptsEntries name (values.map numberedEntries)
  | .output name => ∀ s, c.get? name = some s → s.payload.shape ≠ .assoc
  | .assocOutput name capacity =>
    1 ≤ capacity ∧ ∀ s, c.get? name = some s → s.payload.shape = .assoc

/-- The parameter of a name with a payload that was bound to it. A declared parameter takes values in
from now on, and keeps a family that it has. -/
def bound (name : String) (p : Payload) : Spec where
  name := name
  payload := p
  direction := (c.get? name).elim .input (·.direction.withInput)
  capacity := (c.get? name).bind (·.capacity)
  family := ((c.get? name).bind (·.family)).or (p.elements.findSome? Value.family?)

/-- What an accepted declaration makes of the parameter of its name, and the number of rows then. -/
inductive Makes : Declaration → Spec → Option Nat → Prop
  | scalar (name : String) (v : Value) :
      Makes (.scalar name v) (c.bound name (.scalar v)) c.count
  | array (name : String) (values : List Value) (rows : Nat)
      (hrows : rows = c.count.getD values.length) :
      Makes (.array name values) (c.bound name (.array (values.take rows))) (some rows)
  | assoc (name : String) (es : List (UInt32 × Value)) (entries : Dict UInt32 Value)
      (hlast : ∀ k v, entries.get? k = some v ↔ LastEntry es k v) :
      Makes (.assoc name (some es)) (c.bound name (.assoc entries)) c.count
  | assocList (name : String) (values : List Value) (entries : Dict UInt32 Value)
      (hlast : ∀ k v, entries.get? k = some v ↔ LastEntry (numberedEntries values) k v) :
      Makes (.assocList name (some values)) (c.bound name (.assoc entries)) c.count
  | newOutput (name : String) (hnew : c.get? name = none) :
      Makes (.output name) ⟨name, .scalar .null, .output, none, none⟩ c.count
  | output (name : String) (s : Spec) (hs : c.get? name = some s) :
      Makes (.output name) { s with direction := s.direction.withOutput } c.count
  | newAssocOutput (name : String) (capacity : Nat) (hnew : c.get? name = none) :
      Makes (.assocOutput name capacity) ⟨name, .assoc ∅, .output, some capacity, none⟩ c.count
  | assocOutput (name : String) (capacity : Nat) (s : Spec) (hs : c.get? name = some s) :
      Makes (.assocOutput name capacity)
        { s with direction := s.direction.withOutput, capacity := some capacity } c.count

end

variable {c : Catalog} {name : String}

/-! ## Binds -/

theorem clash?_of_agree {s : Spec} {p : Payload} {family : Option Family}
    (hshape : s.payload.shape = p.shape)
    (hfamily : ∀ e f, s.family = some e → family = some f → e = f) : clash? s p family = none := by
  unfold clash?
  rw [if_neg (Decidable.not_not.mpr hshape)]
  cases he : s.family with
  | none => rfl
  | some e =>
    cases hf : family with
    | none => rfl
    | some f => exact if_pos (hfamily e f he hf)

theorem takes_iff_clash? {p : Payload} (hu : Uniform (· ∈ p.elements)) :
    c.Takes name p.shape (· ∈ p.elements) ↔ ∀ s, c.get? name = some s →
      clash? s p (p.elements.findSome? Value.family?) = none := by
  refine forall₂_congr fun s _ => ⟨fun ⟨hshape, hfamily⟩ => ?_, fun hnone => ?_⟩
  · apply clash?_of_agree hshape
    intro e f he hf
    obtain ⟨v, hv, hvf⟩ := List.exists_of_findSome?_eq_some hf
    exact hfamily v e f hv he hvf
  · obtain ⟨hshape, hfamily⟩ := clash?_eq_none hnone
    exact ⟨hshape, fun v e f hv he hf => hfamily e f he (findSome?_family_of_mem hu hv hf)⟩

/-- A payload of uniform values is refused, and then the catalog is ready and otherwise as it was, or
it is taken, and then it is that of the parameter of the name. -/
theorem bind_outcome (h : c.Indexed) (name : String) {p : Payload}
    (hu : Uniform (· ∈ p.elements)) :
    (¬ c.Takes name p.shape (· ∈ p.elements) ∧
      ∃ e, c.bind name p (p.elements.findSome? Value.family?) = (.error e, c.reset)) ∨
    (c.Takes name p.shape (· ∈ p.elements) ∧
      ∃ d, c.bind name p (p.elements.findSome? Value.family?) = (.ok (), d) ∧
        c.Replaced (c.bound name p) d ∧ d.count = c.count) := by
  rw [takes_iff_clash? hu]
  rcases bind_cases c name p (p.elements.findSome? Value.family?) with
    ⟨s, misuse, hs, hclash, he⟩ | ⟨hnew, he⟩ | ⟨s, hs, hnone, he⟩
  · refine .inl ⟨fun hall => ?_, _, he⟩
    rw [hall s hs] at hclash
    cases hclash
  · have hbound : c.bound name p =
        ⟨name, p, .input, none, p.elements.findSome? Value.family?⟩ := by
      simp [bound, hnew]
    refine .inr ⟨fun s hs => ?_, _, he, ?_, rfl⟩
    · rw [hnew] at hs
      cases hs
    · rw [hbound]
      exact replaced_push h hnew
  · have hname := (h.get?_eq_some.mp hs).2
    have hbound : c.bound name p = rebound p (p.elements.findSome? Value.family?) s := by
      simp [bound, rebound, hs, hname]
    refine .inr ⟨fun t ht => ?_, _, he, ?_, update_count ..⟩
    · rw [hs] at ht
      cases ht
      exact hnone
    · rw [hbound]
      exact replaced_update h hs hname

/-! ## Declarations -/

/-- What a declaration answers and leaves. One that is not to be accepted leaves everything but the
phase; any other makes one parameter, and the number of rows. -/
inductive DeclareOutcome (c : Catalog) (d : Declaration) : Except Error Unit × Catalog → Prop
  | refused {e : Error} {phase : Phase} (hd : ¬ c.Accepts d) :
      DeclareOutcome c d (.error e, { c with phase })
  | accepted {t : Spec} {e : Catalog} (hd : c.Accepts d) (ht : c.Makes d t e.count)
      (hreplaced : c.Replaced t e) : DeclareOutcome c d (.ok (), e)

theorem DeclareOutcome.unchanged {d : Declaration} {e : Error} (hd : ¬ c.Accepts d) :
    DeclareOutcome c d (.error e, c) :=
  @DeclareOutcome.refused c d e c.phase hd

theorem rowValues_cases (hpos : ∀ n, c.count = some n → 1 ≤ n) (values : List Value) :
    let rows := c.count.getD values.length
    (¬ (1 ≤ rows ∧ rows ≤ values.length) ∧ ∃ misuse, rowValues c.count values = .error misuse) ∨
    (1 ≤ rows ∧ rows ≤ values.length ∧ rowValues c.count values = .ok (values.take rows)) := by
  unfold rowValues
  cases hcount : c.count with
  | none =>
    cases values with
    | nil => exact .inl ⟨by simp, _, rfl⟩
    | cons v vs => exact .inr ⟨by simp, by simp, by simp⟩
  | some n =>
    have hn := hpos n hcount
    by_cases hlt : values.length < n
    · exact .inl ⟨by simp only [Option.getD_some]; omega, _, by simp only [if_pos hlt]; rfl⟩
    · exact .inr ⟨hn, by simp only [Option.getD_some]; omega, by simp only [if_neg hlt]; rfl⟩

section
variable (h : c.Valid) (name : String)
include h

theorem bindScalar_outcome (v : Value) : DeclareOutcome c (.scalar name v) (c.bindScalar name v) := by
  cases hv : v.seq? with
  | some items =>
    cases v with
    | seq items => exact .unchanged fun hd => by cases hd.1
    | _ => cases hv
  | none =>
    have hkept : (· ∈ (Payload.scalar v).elements) = (· = v) := by
      funext w
      simp [Payload.elements]
    have hu : Uniform (· ∈ (Payload.scalar v).elements) := by
      rw [hkept]
      refine ⟨fun w hw => hw ▸ hv, fun w x e f hw hx he hf => ?_⟩
      subst hw hx
      exact Option.some.inj (he.symm.trans hf)
    have hbind : c.bindScalar name v = c.bind name (.scalar v)
        ((Payload.scalar v).elements.findSome? Value.family?) := by
      have hfamily : [v].findSome? Value.family? = v.family? := by
        cases hf : v.family? <;> simp [hf]
      rw [Payload.elements, hfamily]
      cases v with
      | seq items => cases hv
      | _ => rfl
    have hout := bind_outcome h.indexed name hu
    rw [hkept] at hout
    rw [hbind]
    rcases hout with ⟨hnot, e, he⟩ | ⟨htakes, d, he, hreplaced, hcount⟩
    · rw [he]
      exact .refused fun hd => hnot hd.2
    · rw [he]
      exact .accepted ⟨hv, htakes⟩ (hcount ▸ .scalar name v) hreplaced

theorem bindArray_outcome (values : List Value) :
    DeclareOutcome c (.array name values) (c.bindArray name values) := by
  unfold bindArray
  rcases rowValues_cases h.count_pos values with ⟨hnot, misuse, hrows⟩ | ⟨hpos, hle, hrows⟩
  · rw [hrows]
    exact .unchanged fun hd => hnot ⟨hd.1, hd.2.1⟩
  · simp only [hrows]
    have hlen : (values.take (c.count.getD values.length)).length = c.count.getD values.length :=
      List.length_take_of_le hle
    generalize hkept : values.take (c.count.getD values.length) = kept at hlen
    rcases commonFamily_cases kept with ⟨hnot, misuse, hfamily⟩ | ⟨hu, hfamily⟩
    · rw [hfamily]
      exact .unchanged fun hd => hnot (hkept ▸ hd.2.2.1)
    · simp only [hfamily]
      have hout := bind_outcome (p := .array kept) h.indexed name hu
      rcases hout with ⟨hnot, e, he⟩ | ⟨htakes, d, he, hreplaced, _⟩
      · simp only [Payload.elements] at he
        simp only [he]
        exact .refused fun hd => hnot (hkept ▸ hd.2.2.2)
      · simp only [Payload.elements] at he
        simp only [he]
        subst hkept
        refine .accepted ⟨hpos, hle, hu, htakes⟩ ?_ (hreplaced.with_count _)
        rw [hlen]
        exact .array name values _ rfl

/-- Entries that are there are bound if there is one and the values that are kept can be. -/
theorem bindAssoc_cases (entries : Option (List (UInt32 × Value))) :
    (¬ c.AcceptsEntries name entries ∧
      ∃ e phase, c.bindAssoc name entries = (.error e, { c with phase })) ∨
    (c.AcceptsEntries name entries ∧ ∃ es d, entries = some es ∧
      c.bindAssoc name entries = (.ok (), d) ∧
      c.Replaced (c.bound name (.assoc (.ofList es))) d ∧ d.count = c.count) := by
  cases entries with
  | none => exact .inl ⟨by rintro ⟨_, ⟨⟩, _⟩, _, c.phase, rfl⟩
  | some es =>
    simp only [bindAssoc, AcceptsEntries, Option.some.injEq, exists_eq_left',
      ← mem_values_ofList]
    by_cases hne : es = []
    · subst hne
      exact .inl ⟨fun hd => hd.1 rfl, _, c.phase, rfl⟩
    have hfull : ¬ (Dict.ofList es).isEmpty = true := by
      rw [isEmpty_ofList, List.isEmpty_iff]
      exact hne
    simp only [if_neg hfull]
    rcases commonFamily_cases (Dict.ofList es).values with ⟨hnot, misuse, hfamily⟩ | ⟨hu, hfamily⟩
    · rw [hfamily]
      exact .inl ⟨fun hd => hnot hd.2.1, _, c.phase, rfl⟩
    · simp only [hfamily]
      have hout := bind_outcome (p := .assoc (.ofList es)) h.indexed name hu
      rcases hout with ⟨hnot, e, he⟩ | ⟨htakes, d, he, hreplaced, hcount⟩
      · exact .inl ⟨fun hd => hnot hd.2.2, e, .building, he⟩
      · exact .inr ⟨⟨hne, hu, htakes⟩, es, d, rfl, he, hreplaced, hcount⟩

theorem bindAssoc_outcome (entries : Option (List (UInt32 × Value))) :
    DeclareOutcome c (.assoc name entries) (c.bindAssoc name entries) := by
  rcases bindAssoc_cases h name entries with
    ⟨hnot, e, phase, he⟩ | ⟨hd, es, d, rfl, he, hreplaced, hcount⟩
  · rw [he]
    exact .refused hnot
  · rw [he]
    refine .accepted hd ?_ hreplaced
    rw [hcount]
    exact .assoc name es _ fun k v => Dict.get?_ofList_eq_some_iff

theorem bindAssocList_outcome (values : Option (List Value)) :
    DeclareOutcome c (.assocList name values) (c.bindAssoc name (values.map numberedEntries)) := by
  rcases bindAssoc_cases h name (values.map numberedEntries) with
    ⟨hnot, e, phase, he⟩ | ⟨hd, es, d, hes, he, hreplaced, hcount⟩
  · rw [he]
    exact .refused hnot
  · rw [he]
    refine .accepted hd ?_ hreplaced
    obtain ⟨vs, rfl, rfl⟩ := Option.map_eq_some_iff.mp hes
    rw [hcount]
    exact .assocList name vs _ fun k v => Dict.get?_ofList_eq_some_iff

theorem declareOutput_outcome : DeclareOutcome c (.output name) (c.declareOutput name) := by
  unfold declareOutput
  cases hs : c.get? name with
  | none =>
    refine .accepted (fun s hs' => ?_) (.newOutput name hs) (replaced_push h.indexed hs)
    rw [hs] at hs'
    cases hs'
  | some s =>
    simp only
    split
    · rename_i hshape
      exact .unchanged fun hd => hd s hs hshape
    · rename_i hshape
      refine .accepted (fun t ht => ?_) ?_
        (replaced_update h.indexed hs (h.indexed.get?_eq_some.mp hs).2)
      · rw [hs] at ht
        cases ht
        exact hshape
      · rw [update_count]
        exact .output name s hs

theorem declareAssocOutput_outcome (capacity : Nat) :
    DeclareOutcome c (.assocOutput name capacity) (c.declareAssocOutput name capacity) := by
  unfold declareAssocOutput
  split
  · rename_i hzero
    exact .unchanged fun hd => absurd hd.1 (by omega)
  · rename_i hpos
    have hpos : 1 ≤ capacity := Nat.pos_of_ne_zero hpos
    cases hs : c.get? name with
    | none =>
      refine .accepted ⟨hpos, fun s hs' => ?_⟩ (.newAssocOutput name capacity hs)
        (replaced_push h.indexed hs)
      rw [hs] at hs'
      cases hs'
    | some s =>
      simp only
      split
      · rename_i hshape
        exact .unchanged fun hd => hshape (hd.2 s hs)
      · rename_i hshape
        refine .accepted ⟨hpos, fun t ht => ?_⟩ ?_
          (replaced_update h.indexed hs (h.indexed.get?_eq_some.mp hs).2)
        · rw [hs] at ht
          cases ht
          exact Decidable.not_not.mp hshape
        · rw [update_count]
          exact .assocOutput name capacity s hs

theorem declare_outcome (d : Declaration) : DeclareOutcome c d (c.declare d) := by
  cases d with
  | scalar name v => exact bindScalar_outcome h name v
  | array name values => exact bindArray_outcome h name values
  | assoc name entries => exact bindAssoc_outcome h name entries
  | assocList name values => exact bindAssocList_outcome h name values
  | output name => exact declareOutput_outcome h name
  | assocOutput name capacity => exact declareAssocOutput_outcome h name capacity

end

theorem Makes.name_eq {d : Declaration} {t : Spec} {count : Option Nat} (h : c.Makes d t count)
    (hi : c.Indexed) : t.name = d.name := by
  cases h with
  | output name s hs => exact (hi.get?_eq_some.mp hs).2
  | assocOutput name capacity s hs => exact (hi.get?_eq_some.mp hs).2
  | _ => rfl

/-- Every value of a list is kept, as long as there are numbers for all of them. -/
theorem lastEntry_numberedEntries {values : List Value} (hlen : values.length ≤ UInt32.size)
    {k : UInt32} {v : Value} :
    LastEntry (numberedEntries values) k v ↔ values[k.toNat]? = some v := by
  have hnumber : ∀ i, i < values.length → (UInt32.ofNat i).toNat = i := fun i hi =>
    UInt32.toNat_ofNat_of_lt' (Nat.lt_of_lt_of_le hi hlen)
  have hnodup : ((numberedEntries values).map Prod.fst).Nodup := by
    rw [numberedEntries, List.map_map, List.Nodup, List.pairwise_map, List.pairwise_iff_getElem]
    intro i j hi hj hlt heq
    rw [List.length_zipIdx] at hi hj
    simp only [List.getElem_zipIdx, Function.comp_apply, Nat.zero_add] at heq
    have hij := congrArg UInt32.toNat heq
    rw [hnumber i hi, hnumber j hj] at hij
    omega
  rw [Dict.lastEntry_iff_mem hnodup]
  simp only [numberedEntries, List.mem_map, Prod.exists, List.mk_mem_zipIdx_iff_getElem?,
    Prod.mk.injEq]
  constructor
  · rintro ⟨w, i, hi, rfl, rfl⟩
    rwa [hnumber i (List.getElem?_eq_some_iff.mp hi).1]
  · intro hk
    exact ⟨v, k.toNat, hk, UInt32.ofNat_toNat, rfl⟩

theorem exists_lastEntry_numberedEntries {values : List Value}
    (hlen : values.length ≤ UInt32.size) :
    (fun v => ∃ k, LastEntry (numberedEntries values) k v) = (· ∈ values) := by
  funext v
  apply propext
  simp only [lastEntry_numberedEntries hlen]
  constructor
  · rintro ⟨k, hk⟩
    exact List.mem_of_getElem? hk
  · intro hv
    obtain ⟨i, hi⟩ := List.mem_iff_getElem?.mp hv
    have hlt := (List.getElem?_eq_some_iff.mp hi).1
    refine ⟨UInt32.ofNat i, ?_⟩
    rwa [UInt32.toNat_ofNat_of_lt' (Nat.lt_of_lt_of_le hlt hlen)]

/-- A list is bound if it has a value and its values can be taken together. -/
theorem accepts_assocList_iff {values : List Value} (hlen : values.length ≤ UInt32.size) :
    c.Accepts (.assocList name (some values)) ↔
      values ≠ [] ∧ Uniform (· ∈ values) ∧ c.Takes name .assoc (· ∈ values) := by
  have hne : numberedEntries values ≠ [] ↔ values ≠ [] := by
    simp [numberedEntries, List.zipIdx_eq_nil_iff]
  simp only [Accepts, AcceptsEntries, Option.map_some, Option.some.injEq, exists_eq_left',
    exists_lastEntry_numberedEntries hlen, hne]

/-- In every reachable catalog a declaration is accepted exactly if the values that it keeps can be
taken. One that is accepted makes the parameter of its name what it declares, and sets the number of
rows if it is an array; no other parameter is touched. One that is refused changes the phase at
most. A list of values that can all be numbered keeps each of them. -/
theorem declare_exact (h : c.Reachable) (d : Declaration) :
    ((c.declare d).1 = .ok () ↔ c.Accepts d) ∧
    ((c.declare d).1 = .ok () → ∃ t, t.name = d.name ∧
      c.Makes d t (c.declare d).2.count ∧ c.Replaced t (c.declare d).2) ∧
    (∀ e, (c.declare d).1 = .error e → ∃ phase, (c.declare d).2 = { c with phase }) ∧
    ∀ values, d = .assocList d.name (some values) → values.length ≤ UInt32.size →
      (c.Accepts d ↔
        values ≠ [] ∧ Uniform (· ∈ values) ∧ c.Takes d.name .assoc (· ∈ values)) := by
  have hvalid := h.valid
  refine ⟨?_, ?_, ?_, fun values hd hlen => hd ▸ accepts_assocList_iff hlen⟩
  all_goals
    have hout := declare_outcome hvalid d
    generalize c.declare d = r at hout
  · cases hout with
    | refused hd => exact iff_of_false (by rintro ⟨⟩) hd
    | accepted hd _ _ => exact iff_of_true rfl hd
  · intro hok
    cases hout with
    | refused _ => cases hok
    | @accepted t _ _ ht hreplaced => exact ⟨t, ht.name_eq hvalid.indexed, ht, hreplaced⟩
  · intro e he
    cases hout with
    | @refused _ phase _ => exact ⟨phase, rfl⟩
    | accepted _ _ _ => cases he

/-- An array for two rows is accepted although its third value is of another family. -/
theorem declare_exact_surplus :
    let c := (Catalog.declare ∅ (.array "id" [.int 1, .null])).2
    let d : Declaration := .array "id" [.null, .int 3, .text "x"]
    c.Reachable ∧ c.Accepts d ∧ ∃ t, t.name = "id" ∧ c.Makes d t (some 2) := by
  intro c d
  have hc : c.Reachable := ⟨∅, .empty, .single (.declare _)⟩
  have hok : (c.declare d).1 = .ok () := rfl
  obtain ⟨haccepts, hchanges, _⟩ := declare_exact hc d
  obtain ⟨t, hname, hmakes, _⟩ := hchanges hok
  exact ⟨hc, haccepts.mp hok, t, hname, hmakes⟩

/-- Two values of one number are of two families, and the entries are accepted: only the last value
is kept. -/
theorem repeated_number_accepted :
    let entries : List (UInt32 × Value) := [(1, .text "a"), (1, .int 1)]
    Reachable ∅ ∧ (Catalog.declare ∅ (.assoc "x" (some entries))).1 = .ok () ∧
      ¬ ((Catalog.declare ∅ (.assoc "x" (some entries))).1 = .ok () ↔
        entries ≠ [] ∧ Uniform (· ∈ entries.map Prod.snd) ∧
          Takes ∅ "x" .assoc (· ∈ entries.map Prod.snd)) := by
  intro entries
  have hok : (Catalog.declare ∅ (.assoc "x" (some entries))).1 = .ok () := rfl
  refine ⟨⟨∅, .empty, .refl⟩, hok, fun hiff => ?_⟩
  obtain ⟨_, hu, _⟩ := hiff.mp hok
  have hsame := hu.single (.text "a") (.int 1) .text .number (by simp [entries])
    (by simp [entries]) rfl rfl
  cases hsame

end Catalog

end SqlTemplate
