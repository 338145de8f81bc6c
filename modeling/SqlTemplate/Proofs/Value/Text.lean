import SqlTemplate.Proofs.Number.Shortest
import SqlTemplate.Proofs.Value.Order
/-!
Numbers compared as texts.

A text takes part in a comparison as the number that it denotes, so it matters that the text of a
number denotes this number, however it is written.

What is proved:
  1. `finite?_integerText`, `finite?_write`: the two ways of writing a number denote it, an integer
     rounded to the nearest number.
  2. `exists_number_of_text`: so a finite number and its text stand at one place of the number line.
     Negative zero is written without its sign; it stands where zero does.
  3. `compare_asText`: where no truth value is compared, a finite number may be replaced by its text
     on either side.
-/

namespace SqlTemplate

namespace Numeral

/-! ## What numbers are written with -/

def IsNumeric (c : Char) : Prop := isDigit c = true ∨ c = '.' ∨ c = '-'

theorem isBlank_of_isNumeric {c : Char} (h : IsNumeric c) : Text.isBlank c = false := by
  rcases h with hdigit | rfl | rfl
  · simp only [isDigit, Bool.and_eq_true, decide_eq_true_eq] at hdigit
    have hlow : 48 ≤ c.toNat := hdigit.1
    have hhigh : c.toNat ≤ 57 := hdigit.2
    exact Text.isBlank_of_visible (by omega)
  · rfl
  · rfl

/-- A finite number that is read from such characters is the one that comparison sees. -/
theorem finite?_of_float? {cs : List Char} {x : Binary64} (hcs : ∀ c ∈ cs, IsNumeric c)
    (hx : x.isFinite = true) (h : float? cs = some x) : finite? cs = some x := by
  have htrim : Text.trim cs = cs := Text.trim_of_not_blank fun c hc => isBlank_of_isNumeric (hcs c hc)
  have hempty : cs.isEmpty = false := by
    cases cs with
    | nil => cases h
    | cons => rfl
  have hall : (cs.all fun c =>
      isDigit c || c == '.' || c == '-' || c == '+' || c == 'e' || c == 'E') = true := by
    refine List.all_eq_true.mpr fun c hc => ?_
    rcases hcs c hc with hdigit | rfl | rfl
    · rw [hdigit]
      rfl
    · rfl
    · rfl
  simp [finite?, htrim, hempty, hall, h, hx]

theorem forall_mem_signed {cs : List Char} (negative : Bool) (h : ∀ c ∈ cs, IsNumeric c) :
    ∀ c ∈ (if negative then ['-'] else []) ++ cs, IsNumeric c := by
  refine List.forall_mem_append.mpr ⟨fun c hc => ?_, h⟩
  cases negative with
  | true => exact .inr (.inr (List.mem_singleton.mp hc))
  | false => cases hc

/-! ## The two ways of writing -/

theorem integerText_toList (i : Int) : (integerText i).toList =
    (if decide (i < 0) then ['-'] else []) ++ Nat.toDigits 10 i.natAbs := by
  unfold integerText
  split <;> simp_all

theorem float?_integerText (i : Int) : float? (integerText i).toList = some (.ofInt i) := by
  have hdigits : ∀ c ∈ Nat.toDigits 10 i.natAbs, isDigit c = true :=
    fun c => isDigit_of_mem_toDigits
  have hmagnitude := magnitude?_digits Nat.toDigits_ne_nil hdigits
  rw [integerText_toList, float?_signed _ (fun c hc => hdigits c (List.mem_of_mem_head? hc))
    hmagnitude, value_toDigits, Binary64.ofDecimal_eq, Binary64.ofInt]
  simp [Decimal.numerator, Decimal.denominator]

theorem finite?_integerText {i : Int} (h : i.natAbs ≤ 2 ^ 63) :
    finite? (integerText i).toList = some (.ofInt i) := by
  refine finite?_of_float? ?_ (Binary64.isFinite_ofInt h) (float?_integerText i)
  rw [integerText_toList]
  exact forall_mem_signed _ fun c hc => .inl (isDigit_of_mem_toDigits hc)

theorem finite?_write {x : Binary64} (hx : x.isFinite = true) :
    finite? (Spelling.positional.write x) = some x := by
  refine finite?_of_float? ?_ hx (Spelling.float?_write hx)
  cases x with
  | nan => cases hx
  | infinite => cases hx
  | finite negative units h =>
    obtain ⟨c, more, hcs, hc, hmore⟩ := Spelling.isNumeral_magnitude units
    rw [Spelling.write, hcs]
    refine forall_mem_signed negative (List.forall_mem_cons.mpr ⟨.inl hc, fun d hd => ?_⟩)
    exact (hmore d hd).imp_right .inl

end Numeral

namespace Binary64

theorem compare?_congr {x y : Binary64} (h : x.position? = y.position?) (z : Binary64) :
    x.compare? z = y.compare? z := by
  rw [compare?, h, compare?]

theorem roundedInt_of_le {i : Int} (h : i.natAbs ≤ 2 ^ 53) : roundedInt i = i := by
  obtain ⟨n, rfl | rfl⟩ := Int.eq_nat_or_neg i
  · rw [roundedInt_natCast, rounded_of_le (by omega)]
  · rw [roundedInt_neg_natCast, rounded_of_le (by omega)]

theorem position?_ofInt_integer? {x : Binary64} {i : Int} (h : x.integer? = some i)
    (hi : i.natAbs ≤ 2 ^ 53) : (ofInt i).position? = x.position? := by
  rw [position?_ofInt (Nat.le_trans hi (by decide)), roundedInt_of_le hi, position?_of_integer? h]

/-- The text of a finite number denotes a number at the same place. -/
theorem exists_number_of_text {x : Binary64} (hx : x.isFinite = true) :
    ∃ y, Numeral.finite? x.text.toList = some y ∧ y.position? = x.position? := by
  have hwrite : ∃ y, Numeral.finite? (String.ofList (Spelling.positional.write x)).toList = some y ∧
      y.position? = x.position? := by
    rw [String.toList_ofList]
    exact ⟨x, Numeral.finite?_write hx, rfl⟩
  unfold text
  split
  · rename_i i hinteger
    split
    · rename_i hsmall
      have hi : i.natAbs ≤ 2 ^ 53 := Nat.le_trans (Nat.le_of_lt hsmall) (by decide)
      exact ⟨ofInt i, Numeral.finite?_integerText (Nat.le_trans hi (by decide)),
        position?_ofInt_integer? hinteger hi⟩
    · exact hwrite
  · exact hwrite

end Binary64

namespace Value

/-! ## Comparison -/

def isFiniteNumber : Value → Bool
  | .int _ => true
  | .float x => x.isFinite
  | _ => false

variable {v w : Value}

/-- A finite number and its text stand at one place of the number line. -/
theorem exists_position_asText (hv : v.isFiniteNumber = true) :
    ∃ x y, v.number? = some x ∧ (Value.text v.asText).number? = some y ∧
      x.position? = y.position? := by
  cases v with
  | int i => exact ⟨_, _, rfl, Numeral.finite?_integerText (natAbs_toInt_le i), rfl⟩
  | float x =>
    obtain ⟨y, hy, hposition⟩ := Binary64.exists_number_of_text hv
    exact ⟨x, y, rfl, hy, hposition.symm⟩
  | _ => cases hv

theorem seq?_of_isFiniteNumber (hv : v.isFiniteNumber = true) : v.seq? = none := by
  cases v <;> first | rfl | cases hv

theorem compareLeaves_asText (op : RelOp) (hv : v.isFiniteNumber = true)
    (hw : ∀ b, w ≠ .bool b) : compareLeaves op v w = compareLeaves op (.text v.asText) w := by
  have hnumber : v.isNull = false ∧ eitherBool v w = false := by
    cases w with
    | bool b => exact absurd rfl (hw b)
    | _ => cases v <;> first | exact ⟨rfl, rfl⟩ | cases hv
  have htext : (Value.text v.asText).isNull = false ∧ eitherBool (.text v.asText) w = false := by
    cases w with
    | bool b => exact absurd rfl (hw b)
    | _ => exact ⟨rfl, rfl⟩
  obtain ⟨x, y, hx, hy, hposition⟩ := exists_position_asText hv
  simp only [compareLeaves, hnumber, htext, hx, hy, Bool.false_or, Bool.false_and,
    Bool.false_eq_true, if_false]
  -- As numbers the two stand at one place, and as texts they are the same.
  cases w.number? with
  | none => rfl
  | some z => simp only [Binary64.compare?_congr hposition]

theorem compare_asText_left (op : RelOp) (hv : v.isFiniteNumber = true)
    (hw : ∀ b, ¬IsLeaf (.bool b) w) : compare op v w = compare op (.text v.asText) w := by
  have hleaf : ∀ y, IsLeaf y w → compare op v y = compare op (.text v.asText) y := by
    intro y hy
    have hbool : ∀ b, y ≠ .bool b := fun b heq => hw b (heq ▸ hy)
    rw [compare_eq_compareLeaves (seq?_of_isFiniteNumber hv) hy.seq?_eq_none,
      compare_eq_compareLeaves rfl hy.seq?_eq_none, compareLeaves_asText op hv hbool]
  apply Bool.eq_iff_iff.mpr
  rw [compare_right_iff (seq?_of_isFiniteNumber hv), compare_right_iff rfl]
  constructor
  · intro ⟨y, hy, h⟩
    exact ⟨y, hy, (hleaf y hy) ▸ h⟩
  · intro ⟨y, hy, h⟩
    exact ⟨y, hy, (hleaf y hy).symm ▸ h⟩

/-- A finite number and its text are interchangeable on either side of every comparison with a value
that holds no truth value at any depth. -/
theorem compare_asText (op : RelOp) (hv : v.isFiniteNumber = true)
    (hw : ∀ b, ¬IsLeaf (.bool b) w) :
    compare op v w = compare op (.text v.asText) w ∧
    compare op w v = compare op w (.text v.asText) := by
  refine ⟨compare_asText_left op hv hw, ?_⟩
  rw [compare_mirror op w v, compare_mirror op w, compare_asText_left op.mirror hv hw]

/-- Negative zero, whose text has no sign, and a number inside of a sequence. -/
theorem compare_asText_negative_zero :
    let zero : Value := .float (.finite true 0 Binary64.representable_zero)
    let items : Value := .seq [.null, .seq [.text " -0e1 ", .seq []], .bytes [0x30]]
    zero.isFiniteNumber = true ∧ (∀ b, ¬IsLeaf (.bool b) items) ∧
    compare .le zero items = compare .le (.text zero.asText) items ∧
    compare .le items zero = compare .le items (.text zero.asText) := by
  have hitems : ∀ b, ¬IsLeaf (.bool b)
      (.seq [.null, .seq [.text " -0e1 ", .seq []], .bytes [0x30]]) := by
    intro b
    simp [isLeaf_seq_iff, isLeaf_iff_eq (show seq? .null = none from rfl),
      isLeaf_iff_eq (show seq? (.text " -0e1 ") = none from rfl),
      isLeaf_iff_eq (show seq? (.bytes [0x30]) = none from rfl)]
  exact ⟨rfl, hitems, compare_asText .le rfl hitems⟩

/-- Truth is not a matter of the number: zero is false, and its text, which is not empty, is true. -/
example : compare .eq (.int 0) (.bool false) = true ∧
    compare .eq (.text (Value.int 0).asText) (.bool false) = false := by
  decide

end Value

end SqlTemplate
