import SqlTemplate.Number.Numeral
import SqlTemplate.Proofs.Number.Nearest
import SqlTemplate.Text.Search
/-!
Decimals as quotients.

The conversion of a decimal takes short cuts where the exponent is very large or very small, so that
no power of such an exponent is formed. What is proved:
  1. `ofDecimal_eq`: the short cuts do not show: every decimal is converted by rounding its quotient.
  2. `ofDecimal_mul_ten`, `ofDecimal_whole`: decimals of one value are converted to one number.
  3. `magnitude?_digits`, `magnitude?_point`: a text of digits, with or without a point among them, is
     read as the decimal that it writes.
-/

namespace SqlTemplate

namespace Decimal

def numerator (d : Decimal) : Nat := d.digits * 10 ^ d.exponent.toNat

def denominator (d : Decimal) : Nat := 10 ^ (-d.exponent).toNat

end Decimal

namespace Binary64

/-! ## The quotient of a decimal -/

theorem nearestUnits_zero (den : Nat) : nearestUnits 0 den = 0 := by
  simp [nearestUnits, roundQuotient]

/-- What is below half a unit is rounded to zero. -/
theorem nearestUnits_eq_zero {num den : Nat} (h : 2 * (num * one) < den) :
    nearestUnits num den = 0 := by
  have hdiv : num * one / den = 0 := Nat.div_eq_of_lt (by omega)
  have hgap : gap 0 = 1 := rfl
  have hmod : num * one % den = num * one := Nat.mod_eq_of_lt (by omega)
  simp only [nearestUnits, hdiv, hgap, Nat.mul_one, roundQuotient, hmod, if_pos h]

theorem bound_eq : bound = 2 ^ 1024 * one := by decide +kernel

/-- Whole numbers from 2^1024 on are not rounded to a finite number. -/
theorem bound_le_nearestUnits {n : Nat} (h : 2 ^ 1024 ≤ n) : bound ≤ nearestUnits n 1 := by
  have hpower : rounded (2 ^ 1024) = 2 ^ 1024 := by
    rw [← Nat.one_mul (2 ^ 1024), rounded_mul_two_pow, rounded_of_le (by decide)]
  have hrounded : 2 ^ 1024 ≤ rounded n := by
    calc
      2 ^ 1024 = rounded (2 ^ 1024) := hpower.symm
      _ ≤ rounded n := rounded_mono h
  rw [nearestUnits_one, bound_eq]
  exact Nat.mul_le_mul_right one hrounded

theorem ofUnits_of_bound_le {units : Nat} (h : bound ≤ units) (negative : Bool) :
    ofUnits negative units = .infinite negative := by
  rw [ofUnits, dif_neg fun hr => Nat.not_le_of_lt hr.1 h, if_pos h]

theorem two_pow_le_ten_pow : 2 ^ 1024 ≤ 10 ^ 310 := by decide +kernel

theorem units_lt_ten_pow : 2 * (2 * one) < 10 ^ 401 := by decide +kernel

theorem le_ten_pow {a m k : Nat} (h : a ≤ 10 ^ m) (hk : m ≤ k) : a ≤ 10 ^ k :=
  Nat.le_trans h (Nat.pow_le_pow_right (by decide) hk)

theorem two_pow_mul_lt_ten_pow {u m : Nat} (h : u < 10 ^ m) (l : Nat) :
    2 ^ l * u < 10 ^ (l + m) := by
  calc
    2 ^ l * u < 2 ^ l * 10 ^ m := Nat.mul_lt_mul_of_pos_left h (Nat.two_pow_pos l)
    _ ≤ 10 ^ l * 10 ^ m := Nat.mul_le_mul_right _ (Nat.pow_le_pow_left (by decide) l)
    _ = 10 ^ (l + m) := (Nat.pow_add ..).symm

theorem le_mul_ten_pow {n k : Nat} (hn : n ≠ 0) (hk : 310 ≤ k) : 2 ^ 1024 ≤ n * 10 ^ k := by
  have hpower : 2 ^ 1024 ≤ 10 ^ k := le_ten_pow two_pow_le_ten_pow hk
  exact Nat.le_trans hpower (Nat.le_mul_of_pos_left _ (Nat.pos_of_ne_zero hn))

/-- A decimal is too small if its exponent takes off 401 places more than its digits have bits. -/
theorem units_lt_ten_pow_of_le {n k : Nat} (hk : n.log2 + 401 ≤ k) : 2 * (n * one) < 10 ^ k := by
  have hbits : n * one ≤ 2 ^ (n.log2 + 1) * one :=
    Nat.mul_le_mul_right one (Nat.le_of_lt Nat.lt_log2_self)
  have regroup (a u : Nat) : 2 * (a * 2 * u) = a * (2 * (2 * u)) := by ac_rfl
  calc
    2 * (n * one) ≤ 2 * (2 ^ (n.log2 + 1) * one) := Nat.mul_le_mul_left 2 hbits
    _ = 2 ^ n.log2 * (2 * (2 * one)) := by rw [Nat.pow_succ, regroup]
    _ < 10 ^ (n.log2 + 401) := two_pow_mul_lt_ten_pow units_lt_ten_pow n.log2
    _ ≤ 10 ^ k := Nat.pow_le_pow_right (by decide) hk

/-- A decimal is converted by rounding its quotient. -/
theorem ofDecimal_eq (negative : Bool) (d : Decimal) :
    ofDecimal negative d = ofRatio negative d.numerator d.denominator := by
  obtain ⟨n, e⟩ := d
  have pow_ten (k : Nat) : Nat.pow 10 k = 10 ^ k := rfl
  simp only [ofDecimal, ofRatio, Decimal.numerator, Decimal.denominator, pow_ten]
  by_cases hzero : n = 0
  · rw [if_pos hzero, hzero, Nat.zero_mul, nearestUnits_zero]
  rw [if_neg hzero]
  by_cases hlarge : 309 < e
  · have hden : (-e).toNat = 0 := by omega
    have hnum : 2 ^ 1024 ≤ n * 10 ^ e.toNat := le_mul_ten_pow hzero (by omega)
    rw [if_pos hlarge, hden, Nat.pow_zero, ofUnits_of_bound_le (bound_le_nearestUnits hnum)]
  rw [if_neg hlarge]
  by_cases hsmall : e < -(400 + n.log2 : Int)
  · have hnum : e.toNat = 0 := by omega
    have hden : 2 * (n * one) < 10 ^ (-e).toNat := units_lt_ten_pow_of_le (by omega)
    rw [if_pos hsmall, hnum, Nat.pow_zero, Nat.mul_one, nearestUnits_eq_zero hden]
  rw [if_neg hsmall]
  by_cases hsign : 0 ≤ e
  · have hden : (-e).toNat = 0 := by omega
    rw [if_pos hsign, hden, Nat.pow_zero]
  · have hnum : e.toNat = 0 := by omega
    rw [if_neg hsign, hnum, Nat.pow_zero, Nat.mul_one]

/-! ## One value, one number -/

theorem nearestUnits_mul_right (num den : Nat) {c : Nat} (hc : 0 < c) :
    nearestUnits (num * c) (den * c) = nearestUnits num den := by
  have hnum : num * c * one = num * one * c := Nat.mul_right_comm ..
  have hden : den * c * gap (num * one / den) = den * gap (num * one / den) * c :=
    Nat.mul_right_comm ..
  simp only [nearestUnits, hnum, Nat.mul_div_mul_right _ _ hc, hden,
    roundQuotient_mul_right _ _ hc]

theorem nearestUnits_one_units {units : Nat} (h : units % gap units = 0) :
    nearestUnits units one = units := by
  calc
    nearestUnits units one = roundQuotient (units * one) (gap units * one) * gap units := by
      rw [nearestUnits, Nat.mul_div_cancel units one_pos, Nat.mul_comm one]
    _ = rounded units := by rw [roundQuotient_mul_right _ _ one_pos, rounded]
    _ = units := rounded_of_mod h

theorem ofDecimal_mul_ten (negative : Bool) (n : Nat) (e : Int) :
    ofDecimal negative ⟨n * 10, e⟩ = ofDecimal negative ⟨n, e + 1⟩ := by
  simp only [ofDecimal_eq, Decimal.numerator, Decimal.denominator]
  by_cases hsign : 0 ≤ e
  · have hnext : (e + 1).toNat = e.toNat + 1 := by omega
    have hden : (-e).toNat = 0 := by omega
    have hden' : (-(e + 1)).toNat = 0 := by omega
    rw [hnext, hden, hden', Nat.pow_succ', Nat.mul_assoc]
  · have hnum : e.toNat = 0 := by omega
    have hnum' : (e + 1).toNat = 0 := by omega
    have hden : (-e).toNat = (-(e + 1)).toNat + 1 := by omega
    rw [hnum, hnum', hden, Nat.pow_zero, Nat.mul_one, Nat.mul_one, Nat.pow_succ, ofRatio, ofRatio,
      nearestUnits_mul_right _ _ (by decide)]

theorem ofDecimal_whole (negative : Bool) (n : Nat) {e : Int} (h : 0 ≤ e) :
    ofDecimal negative ⟨n * 10 ^ e.toNat, 0⟩ = ofDecimal negative ⟨n, e⟩ := by
  have hden : (-e).toNat = 0 := by omega
  simp only [ofDecimal_eq, Decimal.numerator, Decimal.denominator, hden]
  simp

end Binary64

namespace Numeral

/-! ## Digits -/

theorem value_eq (cs : List Char) : value cs = Nat.ofDigitChars 10 cs 0 := rfl

theorem value_toDigits (n : Nat) : value (Nat.toDigits 10 n) = n := Nat.ofDigitChars_ten_toDigits

theorem value_append_zeros (cs : List Char) (k : Nat) :
    value (cs ++ List.replicate k '0') = value cs * 10 ^ k := by
  rw [value_eq, Nat.ofDigitChars_append, Nat.ofDigitChars_replicate_zero, value_eq, Nat.mul_comm]

theorem value_zeros_append (k : Nat) (cs : List Char) :
    value (List.replicate k '0' ++ cs) = value cs := by
  rw [value_eq, Nat.ofDigitChars_append, Nat.ofDigitChars_replicate_zero, Nat.mul_zero, value_eq]

theorem cut_digits {ds : List Char} (rest : List Char) (hds : ∀ c ∈ ds, isDigit c = true)
    (hrest : ∀ c ∈ rest.head?, isDigit c = false) :
    (ds ++ rest).takeWhile isDigit = ds ∧ (ds ++ rest).dropWhile isDigit = rest :=
  have hrun : Text.LongestRun isDigit ds rest := ⟨List.all_eq_true.mpr hds, hrest⟩
  ⟨hrun.takeWhile_append, hrun.dropWhile_append⟩

theorem magnitude?_digits {ds : List Char} (hne : ds ≠ []) (hds : ∀ c ∈ ds, isDigit c = true) :
    magnitude? ds = some ⟨value ds, 0⟩ := by
  obtain ⟨htake, hdrop⟩ := cut_digits [] hds nofun
  rw [List.append_nil] at htake hdrop
  simp [magnitude?, htake, hdrop, hne, exponent?]

theorem magnitude?_point {ws fs : List Char} (hne : ws ≠ []) (hws : ∀ c ∈ ws, isDigit c = true)
    (hfs : ∀ c ∈ fs, isDigit c = true) :
    magnitude? (ws ++ '.' :: fs) = some ⟨value (ws ++ fs), -fs.length⟩ := by
  obtain ⟨hwhole, hpoint⟩ := cut_digits ('.' :: fs) hws fun c hc => by cases hc; rfl
  obtain ⟨hfraction, hend⟩ := cut_digits [] hfs nofun
  rw [List.append_nil] at hfraction hend
  simp [magnitude?, hwhole, hpoint, hfraction, hend, hne, exponent?]

theorem float?_signed {cs : List Char} {d : Decimal} (negative : Bool)
    (hsign : ∀ c ∈ cs.head?, isDigit c = true) (h : magnitude? cs = some d) :
    float? ((if negative then ['-'] else []) ++ cs) = some (.ofDecimal negative d) := by
  cases negative with
  | true => simp [float?, sign, h]
  | false =>
    have hplain : sign cs = (false, cs) := by
      unfold sign
      split
      · exact absurd (hsign '-' rfl) (by decide)
      · exact absurd (hsign '+' rfl) (by decide)
      · rfl
    simp [float?, hplain, h]

end Numeral

end SqlTemplate
