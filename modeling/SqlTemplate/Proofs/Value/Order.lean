import SqlTemplate.Proofs.Number.Nearest
import SqlTemplate.Proofs.Value.Leaves
/-!
The order behind comparison.

What is proved:
  1. `compare_eq_holds`: of two numbers, texts or byte strings, all six operators ask for one order,
     `order`. That each of them finds it on the same way, as numbers or as texts, is what makes them
     agree (`compare_coherent`).
  2. `compare_int`: of two integers this is their own order, unless they are rounded to the same
     number; then they count as equal.
-/

namespace SqlTemplate

namespace Value

/-! ## One order for all operators -/

/-- The values that comparison orders: numbers, texts and bytes. What is no number has no order, and
null, truth values and sequences follow rules of their own. -/
def isOrdered : Value → Bool
  | .int _ | .text _ | .bytes _ => true
  | .float x => !x.isNaN
  | .null | .bool _ | .seq _ => false

/-- The order of two values: as numbers if both denote one, else as texts. -/
def order (a b : Value) : Ordering :=
  match a.number?, b.number? with
  | some x, some y => (x.compare? y).getD .eq
  | _, _ => Ord.compare a.asText b.asText

theorem isFinite_of_finite? {cs : List Char} {x : Binary64} (h : Numeral.finite? cs = some x) :
    x.isFinite = true := by
  unfold Numeral.finite? at h
  simp only at h
  split at h
  · cases h
  · exact (Option.filter_eq_some_iff.mp h).2

/-- What an ordered value denotes as a number has a place on the number line. -/
theorem exists_position {v : Value} {x : Binary64} (hv : v.isOrdered = true)
    (hx : v.number? = some x) : ∃ p, x.position? = some p := by
  have hnan : x.isNaN = false → ∃ p, x.position? = some p := fun h => by
    cases hp : x.position? with
    | none => rw [Binary64.position?_eq_none_iff, h] at hp; cases hp
    | some p => exact ⟨p, rfl⟩
  cases v with
  | int i =>
    rw [number?, Option.some.injEq] at hx
    rw [← hx]
    exact Binary64.exists_position?_ofInt i.toInt
  | float y =>
    cases hx
    exact hnan (by simpa [isOrdered] using hv)
  | text s =>
    have hfinite := isFinite_of_finite? hx
    cases x with
    | finite => exact ⟨_, rfl⟩
    | nan => cases hfinite
    | infinite => cases hfinite
  | bytes bs => cases hx
  | null => cases hv
  | bool b => cases hv
  | seq items => cases hv

variable {a b : Value}

theorem seq?_of_isOrdered (ha : a.isOrdered = true) : a.seq? = none := by
  cases a <;> first | rfl | cases ha

theorem compareLeaves_of_isOrdered (op : RelOp) (ha : a.isOrdered = true)
    (hb : b.isOrdered = true) : compareLeaves op a b =
      match a.number?, b.number? with
      | some x, some y =>
        match x.compare? y with
        | some o => op.holds o
        | none => false
      | _, _ => op.holds (Ord.compare a.asText b.asText) := by
  have hnull : ¬(a.isNull || b.isNull) = true := by
    cases a <;> cases b <;> simp_all [isOrdered, isNull]
  have hbool : ¬(eitherBool a b && op.isEquality) = true := by
    cases a <;> cases b <;> simp_all [isOrdered, eitherBool]
  unfold compareLeaves
  exact (if_neg hnull).trans (if_neg hbool)

/-- All six operators ask for one order. -/
theorem compare_eq_holds (op : RelOp) (ha : a.isOrdered = true) (hb : b.isOrdered = true) :
    compare op a b = op.holds (order a b) := by
  rw [compare_eq_compareLeaves (seq?_of_isOrdered ha) (seq?_of_isOrdered hb),
    compareLeaves_of_isOrdered op ha hb, order]
  cases hx : a.number? with
  | none => rfl
  | some x =>
    cases hy : b.number? with
    | none => rfl
    | some y =>
      -- Both numbers have places, so the numeric way always gives an order.
      obtain ⟨p, hp⟩ := exists_position ha hx
      obtain ⟨q, hq⟩ := exists_position hb hy
      have hxy : x.compare? y = some (Ord.compare p q) := by rw [Binary64.compare?, hp, hq]
      simp only [hxy, Option.getD_some]

theorem order_self (a : Value) : order a a = .eq := by
  unfold order
  cases a.number? with
  | none => exact Std.ReflOrd.compare_self
  | some x =>
    have hself : x.compare? x = none ∨ x.compare? x = some .eq := by
      unfold Binary64.compare?
      cases x.position? with
      | none => exact .inl rfl
      | some p => exact .inr (congrArg some Std.ReflCmp.compare_self)
    rcases hself with h | h <;> simp only [h] <;> rfl

/-- The operators are coherent on numbers, texts and bytes, however the two are mixed: exactly one
of less, equal and greater holds, each of the other three is the opposite of one of these, and a
value is equal to itself. -/
theorem compare_coherent (ha : a.isOrdered = true) (hb : b.isOrdered = true) :
    [RelOp.lt, .eq, .gt].countP (fun op => compare op a b) = 1 ∧
    compare .ne a b = !compare .eq a b ∧
    compare .le a b = !compare .gt a b ∧
    compare .ge a b = !compare .lt a b ∧
    compare .eq a a = true := by
  have hself : compare .eq a a = true := by
    rw [compare_eq_holds .eq ha ha, order_self]
    rfl
  simp only [compare_eq_holds _ ha hb]
  refine ⟨?_, ?_, ?_, ?_, hself⟩ <;> cases order a b <;> rfl

/-- Bytes that are no text, and a text that denotes no finite number: the two are compared as
texts. -/
theorem compare_coherent_bytes :
    (Value.bytes [0xff]).isOrdered = true ∧ (Value.text "1e400").isOrdered = true ∧
    [RelOp.lt, .eq, .gt].countP (fun op => compare op (.bytes [0xff]) (.text "1e400")) = 1 ∧
    compare .ne (.bytes [0xff]) (.text "1e400") = !compare .eq (.bytes [0xff]) (.text "1e400") ∧
    compare .le (.bytes [0xff]) (.text "1e400") = !compare .gt (.bytes [0xff]) (.text "1e400") ∧
    compare .ge (.bytes [0xff]) (.text "1e400") = !compare .lt (.bytes [0xff]) (.text "1e400") ∧
    compare .eq (.bytes [0xff]) (.bytes [0xff]) = true :=
  ⟨rfl, rfl, compare_coherent rfl rfl⟩

/-! ## Integers -/

theorem natAbs_toInt_le (i : Int64) : i.toInt.natAbs ≤ 2 ^ 63 := by
  have hlow := i.le_toInt
  have hhigh := i.toInt_lt
  omega

theorem order_int (a b : Int64) : order (.int a) (.int b) =
    Ord.compare (Binary64.roundedInt a.toInt) (Binary64.roundedInt b.toInt) := by
  have hcompare := Binary64.compare?_ofInt (natAbs_toInt_le a) (natAbs_toInt_le b)
  simp only [order, number?, hcompare, Option.getD_some]

/-- Two integers are compared exactly, unless they are rounded to the same number. -/
theorem compare_int (op : RelOp) (a b : Int64) : compare op (.int a) (.int b) =
    op.holds (if Binary64.roundedInt a.toInt = Binary64.roundedInt b.toInt then .eq
      else Ord.compare a.toInt b.toInt) := by
  rw [compare_eq_holds op rfl rfl, order_int, Binary64.compare_roundedInt]

end Value

end SqlTemplate
