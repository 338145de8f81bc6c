import SqlTemplate.Value.Compare
/-!
Comparison of sequences.

A comparison goes through a sequence on its left first (`compare_seq_left`), and then, for every
item that is none, through a sequence on its right (`compare_seq_right`,
`compare_eq_compareLeaves`).

What is proved:
  1. `compare_left_iff`, `compare_right_iff`: each of the two descents asks for one leaf of its
     side.
  2. `compareLeaves_mirror`: between leaves, the sides may be exchanged with the operator.
  3. `compare_iff_leaves`: a comparison holds where it holds between some leaf of each side; so the
     order of the two descents does not show, and any two values may be exchanged.
-/

namespace SqlTemplate

namespace RelOp

theorem holds_mirror_swap (op : RelOp) (o : Ordering) : op.mirror.holds o.swap = op.holds o := by
  cases op <;> cases o <;> rfl

theorem mirror_mirror (op : RelOp) : op.mirror.mirror = op := by
  cases op <;> rfl

theorem isEquality_mirror (op : RelOp) : op.mirror.isEquality = op.isEquality := by
  cases op <;> rfl

end RelOp

theorem Binary64.compare?_swap (x y : Binary64) :
    y.compare? x = (x.compare? y).map Ordering.swap := by
  unfold compare?
  cases x.position? with
  | none => cases y.position? <;> rfl
  | some a =>
    cases y.position? with
    | none => rfl
    | some b => exact congrArg some Std.OrientedCmp.eq_swap

namespace Value

/-! ## Leaves -/

/-- `x` is a leaf of a value: no sequence, and the value itself or, at any depth, an item of it. -/
inductive IsLeaf (x : Value) : Value → Prop
  | self (h : x.seq? = none) : IsLeaf x x
  | item {v : Value} {items : List Value} (hv : v ∈ items) (h : IsLeaf x v) : IsLeaf x (.seq items)

@[elab_as_elim]
theorem inductionOnItems {motive : Value → Prop} (leaf : ∀ v, v.seq? = none → motive v)
    (seq : ∀ items, (∀ v ∈ items, motive v) → motive (.seq items)) : (v : Value) → motive v
  | .seq items => seq items fun v _ => inductionOnItems leaf seq v
  | .null => leaf _ rfl
  | .bool _ => leaf _ rfl
  | .int _ => leaf _ rfl
  | .float _ => leaf _ rfl
  | .text _ => leaf _ rfl
  | .bytes _ => leaf _ rfl

theorem isLeaf_iff_eq {x v : Value} (hv : v.seq? = none) : IsLeaf x v ↔ x = v := by
  constructor
  · intro h
    cases h with
    | self => rfl
    | item => cases hv
  · intro h
    rw [h]
    exact .self hv

theorem isLeaf_seq_iff {x : Value} {items : List Value} :
    IsLeaf x (.seq items) ↔ ∃ v ∈ items, IsLeaf x v := by
  constructor
  · intro h
    cases h with
    | self h => cases h
    | item hv h => exact ⟨_, hv, h⟩
  · intro ⟨v, hv, h⟩
    exact .item hv h

theorem IsLeaf.seq?_eq_none {x v : Value} (h : IsLeaf x v) : x.seq? = none := by
  induction h with
  | self h => exact h
  | item _ _ ih => exact ih

/-! ## The descents of a comparison -/

theorem anyLeaf_leaf (p : Value → Bool) {v : Value} (hv : v.seq? = none) : anyLeaf p v = p v := by
  cases v with
  | seq items => cases hv
  | _ => rfl

theorem anyLeafOf_eq_any (p : Value → Bool) (items : List Value) :
    anyLeafOf p items = items.any (anyLeaf p) := by
  induction items with
  | nil => rfl
  | cons v rest ih => rw [anyLeafOf, ih, List.any_cons]

theorem anyLeaf_seq (p : Value → Bool) (items : List Value) :
    anyLeaf p (.seq items) = items.any (anyLeaf p) := by
  rw [anyLeaf, anyLeafOf_eq_any]

variable {op : RelOp} {a b : Value}

theorem compare_seq_left (items : List Value) :
    compare op (.seq items) b = items.any (fun x => compare op x b) :=
  anyLeaf_seq _ items

theorem compare_seq_right (ha : a.seq? = none) (items : List Value) :
    compare op a (.seq items) = items.any (fun y => compare op a y) := by
  simp only [compare, anyLeaf_leaf _ ha, anyLeaf_seq]

theorem compare_eq_compareLeaves (ha : a.seq? = none) (hb : b.seq? = none) :
    compare op a b = compareLeaves op a b := by
  rw [compare, anyLeaf_leaf _ ha, anyLeaf_leaf _ hb]

theorem compare_right_iff (ha : a.seq? = none) :
    compare op a b = true ↔ ∃ y, IsLeaf y b ∧ compare op a y = true := by
  induction b using inductionOnItems with
  | leaf b hb => simp only [isLeaf_iff_eq hb, exists_eq_left]
  | seq items ih =>
    rw [compare_seq_right ha, List.any_eq_true]
    constructor
    · intro ⟨v, hv, h⟩
      obtain ⟨y, hy, h⟩ := (ih v hv).mp h
      exact ⟨y, .item hv hy, h⟩
    · intro ⟨y, hy, h⟩
      obtain ⟨v, hv, hy⟩ := isLeaf_seq_iff.mp hy
      exact ⟨v, hv, (ih v hv).mpr ⟨y, hy, h⟩⟩

theorem compare_left_iff : compare op a b = true ↔ ∃ x, IsLeaf x a ∧ compare op x b = true := by
  induction a using inductionOnItems with
  | leaf a ha => simp only [isLeaf_iff_eq ha, exists_eq_left]
  | seq items ih =>
    rw [compare_seq_left, List.any_eq_true]
    constructor
    · intro ⟨v, hv, h⟩
      obtain ⟨x, hx, h⟩ := (ih v hv).mp h
      exact ⟨x, .item hv hx, h⟩
    · intro ⟨x, hx, h⟩
      obtain ⟨v, hv, hx⟩ := isLeaf_seq_iff.mp hx
      exact ⟨v, hv, (ih v hv).mpr ⟨x, hx, h⟩⟩

theorem compare_iff :
    compare op a b = true ↔ ∃ x y, IsLeaf x a ∧ IsLeaf y b ∧ compare op x y = true := by
  constructor
  · intro h
    obtain ⟨x, hx, h⟩ := compare_left_iff.mp h
    obtain ⟨y, hy, h⟩ := (compare_right_iff hx.seq?_eq_none).mp h
    exact ⟨x, y, hx, hy, h⟩
  · intro ⟨x, y, hx, hy, h⟩
    have hright : compare op x b = true := (compare_right_iff hx.seq?_eq_none).mpr ⟨y, hy, h⟩
    exact compare_left_iff.mpr ⟨x, hx, hright⟩

/-! ## Exchanging the sides -/

theorem eitherBool_comm (x y : Value) : eitherBool y x = eitherBool x y := by
  cases x <;> cases y <;> rfl

theorem compareLeaves_mirror (op : RelOp) (x y : Value) :
    compareLeaves op.mirror y x = compareLeaves op x y := by
  have htruth : Ord.compare y.truthy x.truthy = (Ord.compare x.truthy y.truthy).swap :=
    Std.OrientedCmp.eq_swap
  have htext : Ord.compare y.asText x.asText = (Ord.compare x.asText y.asText).swap :=
    Std.OrientedCmp.eq_swap
  -- The case that is taken does not depend on the side; in each the order is swapped.
  unfold compareLeaves
  rw [Bool.or_comm y.isNull, eitherBool_comm, RelOp.isEquality_mirror, htruth, htext,
    RelOp.holds_mirror_swap, RelOp.holds_mirror_swap]
  split
  · rfl
  · split
    · rfl
    · cases x.number? with
      | none => cases y.number? <;> rfl
      | some m =>
        cases y.number? with
        | none => rfl
        | some n =>
          simp only [Binary64.compare?_swap m n]
          cases m.compare? n with
          | none => rfl
          | some o => exact RelOp.holds_mirror_swap op o

theorem compare_mirror_leaf {x y : Value} (hx : x.seq? = none) (hy : y.seq? = none) :
    compare op.mirror y x = compare op x y := by
  rw [compare_eq_compareLeaves hx hy, compare_eq_compareLeaves hy hx, compareLeaves_mirror]

theorem compare_of_mirror (h : compare op a b = true) : compare op.mirror b a = true := by
  obtain ⟨x, y, hx, hy, h⟩ := compare_iff.mp h
  refine compare_iff.mpr ⟨y, x, hy, hx, ?_⟩
  rw [compare_mirror_leaf hx.seq?_eq_none hy.seq?_eq_none]
  exact h

theorem compare_mirror (op : RelOp) (a b : Value) : compare op a b = compare op.mirror b a := by
  apply Bool.eq_iff_iff.mpr
  constructor
  · exact compare_of_mirror
  · intro h
    have hback := compare_of_mirror h
    rwa [RelOp.mirror_mirror] at hback

theorem compare_null_left (op : RelOp) (v : Value) : compare op .null v = false := by
  cases h : compare op .null v with
  | false => rfl
  | true =>
    obtain ⟨y, hy, hleaf⟩ := (compare_right_iff rfl).mp h
    rw [compare_eq_compareLeaves rfl hy.seq?_eq_none] at hleaf
    cases hleaf

/-- A comparison holds if it holds between a leaf of the one value and a leaf of the other. A value
that is no sequence is its only leaf, the empty sequence has none, and null compares with nothing.
The two values may be exchanged if less and greater are exchanged in the operator. -/
theorem compare_iff_leaves (op : RelOp) (a b : Value) :
    (compare op a b = true ↔ ∃ x y, IsLeaf x a ∧ IsLeaf y b ∧ compare op x y = true) ∧
    (∀ x v : Value, v.seq? = none → (IsLeaf x v ↔ x = v)) ∧
    (∀ x : Value, ¬IsLeaf x (.seq [])) ∧
    (∀ v : Value, compare op .null v = false ∧ compare op v .null = false) ∧
    compare op a b = compare op.mirror b a := by
  refine ⟨compare_iff, fun x v hv => isLeaf_iff_eq hv, fun x hx => ?_, fun v => ?_,
    compare_mirror op a b⟩
  · obtain ⟨v, hv, _⟩ := isLeaf_seq_iff.mp hx
    cases hv
  · have hright : compare op v .null = false := by
      rw [compare_mirror]
      exact compare_null_left op.mirror v
    exact ⟨compare_null_left op v, hright⟩

end Value

end SqlTemplate
