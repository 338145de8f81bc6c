/-!
Integers: their decimal text, which of them have 64 bits, and the nearest one that has.
-/

namespace SqlTemplate

def integerText (i : Int) : String :=
  if i < 0 then String.ofList ('-' :: Nat.toDigits 10 i.natAbs)
  else String.ofList (Nat.toDigits 10 i.natAbs)

theorem integerText_natCast (n : Nat) : integerText n = String.ofList (Nat.toDigits 10 n) := by
  rw [integerText, if_neg (by omega), Int.natAbs_natCast]

theorem integerText_natCast_inj {m n : Nat} (h : integerText m = integerText n) : m = n := by
  rw [integerText_natCast, integerText_natCast, String.ofList_inj] at h
  calc
    m = Nat.ofDigitChars 10 (Nat.toDigits 10 m) 0 := Nat.ofDigitChars_ten_toDigits.symm
    _ = Nat.ofDigitChars 10 (Nat.toDigits 10 n) 0 := by rw [h]
    _ = n := Nat.ofDigitChars_ten_toDigits

def isInt64 (i : Int) : Bool := Int64.minValue.toInt ≤ i && i ≤ Int64.maxValue.toInt

theorem isInt64_toInt (i : Int64) : isInt64 i.toInt = true := by
  have hmin := i.minValue_le_toInt
  have hmax := i.toInt_lt
  unfold isInt64
  rw [Bool.and_eq_true, decide_eq_true_eq, decide_eq_true_eq]
  have : Int64.maxValue.toInt = 2 ^ 63 - 1 := by decide
  have : Int64.minValue.toInt = - 2 ^ 63 := by decide
  omega

/-- The integer nearest to `i` among those of 64 bits. -/
def Int64.saturating (i : Int) : Int64 :=
  if i < Int64.minValue.toInt then Int64.minValue
  else if Int64.maxValue.toInt < i then Int64.maxValue
  else Int64.ofInt i

end SqlTemplate
