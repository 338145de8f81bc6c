import Mathlib.Algebra.Group.Int.Defs
import SqlTemplate.Proofs.Number.Whole
import SqlTemplate.Proofs.Value.Text
/-!
The integer view of a value beside its text.

A whole number from 10^15 on is written with the digits of the shortest decimal that reads back. They need
not be its own, so the text of a value and its integer may differ from 2^54 on.

What is proved:
  1. `position?_ofInt_signed`: an integer stands where a whole number does if its magnitude is rounded to
     that of the number.
  2. `text_whole`: the text of a whole number is that of an integer that reads back.
  3. `int?_exact`: so where a value has an integer view, this is the value itself as long as it is in range,
     and its text is the text of the value up to 2^54.
-/

namespace SqlTemplate

namespace Binary64

/-- An integer stands where the whole number does that its magnitude is rounded to. -/
theorem position?_ofInt_signed (negative : Bool) {n j : Nat} (hj : rounded j = n)
    (hn : n * one < bound) :
    (ofInt (signed negative j)).position? = some (signed negative (n * one)) := by
  rw [ofInt, position?_ofRatio, natAbs_signed, nearestUnits_one, hj,
    Nat.min_eq_left (Nat.le_of_lt hn)]
  by_cases hzero : j = 0
  · have hn : n = 0 := by rw [← hj, hzero, rounded_of_le (Nat.zero_le _)]
    subst hn hzero
    rw [Nat.zero_mul]
    cases negative <;> rfl
  · rw [decide_signed_neg negative (Nat.pos_of_ne_zero hzero)]

theorem integerText_signed (negative : Bool) {m : Nat} (hm : 0 < m) :
    integerText (signed negative m) =
      String.ofList ((if negative then ['-'] else []) ++ Nat.toDigits 10 m) := by
  rw [← String.toList_inj, String.toList_ofList, Numeral.integerText_toList, natAbs_signed,
    decide_signed_neg negative hm]

/-- The text of a whole number is that of an integer that reads back: the number itself up to 2^54 in
magnitude, and else the number or an integer that ends in more zeros. -/
theorem text_whole {x : Binary64} {i : Int} (h : x.integer? = some i) : ∃ j : Int,
    x.text = integerText j ∧ (ofInt j).position? = x.position? ∧
    (i.natAbs ≤ 2 ^ 54 → j = i) ∧ (j = i ∨ ∃ e : Nat, (10 : Int) ^ e ∣ j ∧ ¬(10 : Int) ^ e ∣ i) := by
  have htext : x.text = if i.natAbs < Nat.pow 10 15 then integerText i
      else String.ofList (Spelling.positional.write x) := by
    rw [text, h]
  obtain ⟨negative, n, hn, rfl, rfl⟩ := exists_whole h
  rw [natAbs_signed] at htext
  by_cases hsmall : n < Nat.pow 10 15
  · refine ⟨signed negative n, ?_, ?_, fun _ => rfl, .inl rfl⟩
    · rw [htext, if_pos hsmall]
    · rw [position?_ofInt_signed negative (Shortest.rounded_whole hn) hn.1]
      rfl
  · have hpos : 0 < n := by
      have : 0 < Nat.pow 10 15 := by decide
      omega
    obtain ⟨j, hmagnitude, hj, hwritten⟩ := Spelling.magnitude_whole hn hpos
    have dvd_signed (e m : Nat) : (10 : Int) ^ e ∣ signed negative m ↔ 10 ^ e ∣ m := by
      rw [← Int.natAbs_dvd_natAbs, natAbs_signed, Int.natAbs_pow]
      rfl
    refine ⟨signed negative j, ?_, ?_, fun hle => ?_, ?_⟩
    · rw [htext, if_neg hsmall, integerText_signed negative hj, Spelling.write, hmagnitude]
    · rw [position?_ofInt_signed negative hwritten.1 hn.1]
      rfl
    · rw [natAbs_signed] at hle
      rw [hwritten.eq_of_le hle]
    · obtain rfl | ⟨e, hmore, hnot⟩ := hwritten.eq_or
      · exact .inl rfl
      · exact .inr ⟨e, (dvd_signed e j).mpr hmore, fun hdvd => hnot ((dvd_signed e n).mp hdvd)⟩

end Binary64

theorem Int64.toInt_saturating {i : Int} (h : isInt64 i = true) : (Int64.saturating i).toInt = i := by
  simp only [isInt64, Bool.and_eq_true, decide_eq_true_eq] at h
  have hmin : Int64.minValue.toInt = -2 ^ 63 := by decide
  have hmax : Int64.maxValue.toInt = 2 ^ 63 - 1 := by decide
  rw [Int64.saturating, if_neg (by omega), if_neg (by omega)]
  exact Int64.toInt_ofInt_of_le (by omega) (by omega)

namespace Value

/-- Where a value has an integer view, an integer is viewed as itself and shown by its own digits. A whole
number is viewed as the integer that it is if that has 64 bits, and shown by its digits up to 2^54 in
magnitude; from there on the digits are those of an integer that reads back as the number, which is the
number itself or ends in more zeros. -/
theorem int?_exact {v : Value} {i : Int64} (h : v.int? = some i) :
    (v = .int i ∧ v.asText = integerText i.toInt) ∨
    ∃ (x : Binary64) (n : Int), v = .float x ∧ x.position? = some (n * Binary64.one) ∧
      (isInt64 n = true → i.toInt = n) ∧
      (n.natAbs ≤ 2 ^ 54 → v.asText = integerText i.toInt) ∧
      ∃ j, v.asText = integerText j ∧ (Binary64.ofInt j).position? = x.position? ∧
        (j = n ∨ ∃ e : Nat, (10 : Int) ^ e ∣ j ∧ ¬(10 : Int) ^ e ∣ n) := by
  cases v with
  | int k =>
    cases h
    exact .inl ⟨rfl, rfl⟩
  | float x =>
    obtain ⟨n, hn, rfl⟩ := Option.map_eq_some_iff.mp h
    obtain ⟨j, htext, hposition, hsmall, hzeros⟩ := Binary64.text_whole hn
    refine .inr ⟨x, n, rfl, Binary64.position?_of_integer? hn, Int64.toInt_saturating, fun hle => ?_,
      j, htext, hposition, hzeros⟩
    have hrange : isInt64 n = true := by
      have hmin : Int64.minValue.toInt = -2 ^ 63 := by decide
      have hmax : Int64.maxValue.toInt = 2 ^ 63 - 1 := by decide
      simp only [isInt64, Bool.and_eq_true, decide_eq_true_eq]
      omega
    rw [Int64.toInt_saturating hrange, ← hsmall hle]
    exact htext
  | _ => cases h

/-- A number behind 2^54, which is shown by other digits than its own. -/
theorem int?_exact_behind :
    let x : Binary64 := .ofInt 18014398509481992
    int? (.float x) = some 18014398509481992 ∧
    ((Value.float x = .int 18014398509481992 ∧
        asText (.float x) = integerText (18014398509481992 : Int64).toInt) ∨
      ∃ (y : Binary64) (n : Int), Value.float x = .float y ∧
        y.position? = some (n * Binary64.one) ∧
        (isInt64 n = true → (18014398509481992 : Int64).toInt = n) ∧
        (n.natAbs ≤ 2 ^ 54 → asText (.float x) = integerText (18014398509481992 : Int64).toInt) ∧
        ∃ j, asText (.float x) = integerText j ∧ (Binary64.ofInt j).position? = y.position? ∧
          (j = n ∨ ∃ e : Nat, (10 : Int) ^ e ∣ j ∧ ¬(10 : Int) ^ e ∣ n)) := by
  intro x
  have hview : int? (.float x) = some 18014398509481992 := by decide +kernel
  exact ⟨hview, int?_exact hview⟩

/-- The integer view of 2^63 is the integer below it, and 18014398509481992 is shown by other digits. -/
theorem int?_inexact :
    let edge : Binary64 := .ofInt (2 ^ 63)
    let large : Binary64 := .ofInt 18014398509481992
    (int? (.float edge) = some Int64.maxValue ∧
      edge.position? ≠ some (Int64.maxValue.toInt * Binary64.one)) ∧
    (int? (.float large) = some 18014398509481992 ∧
      asText (.float large) = "18014398509481990" ∧
      asText (.float large) ≠ integerText (18014398509481992 : Int64).toInt) := by
  decide +kernel

end Value

end SqlTemplate
