import Mathlib.Algebra.Group.Nat.Defs
import SqlTemplate.Number.Nearest
/-!
What rounding to the nearest number gives.

A quotient is rounded on the grid of its own size, whose points are `gap` apart; an integer is
rounded to 53 significant bits (`roundedInt`).

What is proved:
  1. `roundQuotient_near`, `roundQuotient_mono`: rounding moves a quotient by half a step at most,
     and a larger quotient is not rounded to less.
  2. `position?_ofRatio`: what is rounded stands on the grid of its new size. So every quotient has
     a nearest number with a place on the number line; none is taken for no number.
  3. `compare?_ofInt`: the numbers nearest to two integers of 64 bits are ordered as the integers
     rounded to 53 significant bits are.
  4. `compare_roundedInt`: rounding never exchanges two integers, it can only make them equal.
  5. `eq_of_roundedInt_eq`: it does so only to integers from 2^53 on, and no further than 1024
     apart.
-/

namespace SqlTemplate

/-! ## Quotients -/

theorem roundQuotient_cases (num den : Nat) :
    (roundQuotient num den = num / den ∧ 2 * (num % den) ≤ den) ∨
    (roundQuotient num den = num / den + 1 ∧ den ≤ 2 * (num % den)) := by
  simp only [roundQuotient]
  split
  · next hlow => exact .inl ⟨rfl, Nat.le_of_lt hlow⟩
  · split
    · next hhigh => exact .inr ⟨rfl, Nat.le_of_lt hhigh⟩
    · split
      · exact .inl ⟨rfl, by omega⟩
      · exact .inr ⟨rfl, by omega⟩

/-- A rounded quotient is off by half a step at most. -/
theorem roundQuotient_near (num : Nat) {den : Nat} (hden : 0 < den) :
    2 * num ≤ 2 * (roundQuotient num den * den) + den ∧
      2 * (roundQuotient num den * den) ≤ 2 * num + den := by
  have hdiv : num / den * den + num % den = num := Nat.div_add_mod' num den
  have hmod : num % den < den := Nat.mod_lt num hden
  rcases roundQuotient_cases num den with ⟨hq, hr⟩ | ⟨hq, hr⟩
  · rw [hq]
    omega
  · rw [hq, Nat.succ_mul (num / den)]
    omega

theorem roundQuotient_mono {m n den : Nat} (hden : 0 < den) (h : m ≤ n) :
    roundQuotient m den ≤ roundQuotient n den := by
  -- Were it not so, the two would be a step apart on the grid, and half a step each leaves m = n.
  apply Nat.le_of_not_lt
  intro hlt
  have hstep : (roundQuotient n den + 1) * den ≤ roundQuotient m den * den :=
    Nat.mul_le_mul_right den hlt
  rw [Nat.succ_mul (roundQuotient n den)] at hstep
  have hm := (roundQuotient_near m hden).2
  have hn := (roundQuotient_near n hden).1
  have heq : m = n := by omega
  rw [heq] at hlt
  exact Nat.lt_irrefl _ hlt

theorem roundQuotient_mul_right (num den : Nat) {c : Nat} (hc : 0 < c) :
    roundQuotient (num * c) (den * c) = roundQuotient num den := by
  have htwice : 2 * (num % den * c) = 2 * (num % den) * c := (Nat.mul_assoc ..).symm
  simp only [roundQuotient, Nat.mul_div_mul_right _ _ hc, Nat.mul_mod_mul_right, htwice,
    Nat.mul_lt_mul_right hc]

theorem roundQuotient_mul_self (q : Nat) {den : Nat} (hden : 0 < den) :
    roundQuotient (q * den) den = q := by
  simp [roundQuotient, Nat.mul_div_cancel q hden, hden]

theorem log2_mul_two_pow {n : Nat} (hn : n ≠ 0) (k : Nat) : (n * 2 ^ k).log2 = n.log2 + k := by
  induction k with
  | zero => rw [Nat.pow_zero, Nat.mul_one, Nat.add_zero]
  | succ k ih =>
    have hne : n * 2 ^ k ≠ 0 := Nat.mul_ne_zero hn (Nat.ne_of_gt (Nat.two_pow_pos k))
    have hdouble : n * 2 ^ (k + 1) = 2 * (n * 2 ^ k) := by rw [Nat.pow_succ]; ac_rfl
    rw [hdouble, Nat.log2_two_mul hne, ih, Nat.add_assoc]

namespace Binary64

/-! ## The grid -/

theorem gap_eq (units : Nat) : gap units = 2 ^ (units.log2 - 52) := rfl

theorem gap_pos (units : Nat) : 0 < gap units := Nat.two_pow_pos _

/-- A magnitude has 53 bits before the grid of its size. -/
theorem lt_mul_gap (units : Nat) : units < 2 ^ 53 * gap units := by
  calc
    units < 2 ^ (units.log2 + 1) := Nat.lt_log2_self
    _ ≤ 2 ^ (53 + (units.log2 - 52)) := Nat.pow_le_pow_right (by decide) (by omega)
    _ = 2 ^ 53 * gap units := Nat.pow_add ..

/-- A product of at most 53 bits with a power of two stands on the grid of its size. -/
theorem mod_gap_eq_zero {q : Nat} (hq : q ≤ 2 ^ 53) (k : Nat) :
    q * 2 ^ k % gap (q * 2 ^ k) = 0 := by
  apply Nat.mod_eq_zero_of_dvd
  by_cases hzero : q = 0
  · subst hzero
    rw [Nat.zero_mul]
    exact Nat.dvd_zero _
  · rw [gap_eq, log2_mul_two_pow hzero]
    rcases Nat.lt_or_eq_of_le hq with hlt | rfl
    · have hlog : q.log2 < 53 := (Nat.log2_lt hzero).mpr hlt
      exact Nat.dvd_trans (Nat.pow_dvd_pow 2 (by omega)) (Nat.dvd_mul_left ..)
    · rw [Nat.log2_two_pow, ← Nat.pow_add]
      exact Nat.pow_dvd_pow 2 (by omega)

/-- What is rounded stands on the grid of its new size, even where it is rounded up to the next
power of two. -/
theorem nearestUnits_mod_gap (num den : Nat) :
    nearestUnits num den % gap (nearestUnits num den) = 0 := by
  have hbits : num * one / (den * gap (num * one / den)) < 2 ^ 53 := by
    rw [← Nat.div_div_eq_div_mul, Nat.div_lt_iff_lt_mul (gap_pos _)]
    exact lt_mul_gap _
  have hq : roundQuotient (num * one) (den * gap (num * one / den)) ≤ 2 ^ 53 := by
    rcases roundQuotient_cases (num * one) (den * gap (num * one / den)) with ⟨hq, _⟩ | ⟨hq, _⟩
    · rw [hq]
      exact Nat.le_of_lt hbits
    · rw [hq]
      exact hbits
  exact mod_gap_eq_zero hq _

theorem position?_ofUnits {units : Nat} (h : units % gap units = 0) (negative : Bool) :
    (ofUnits negative units).position? = some (signed negative (min units bound)) := by
  unfold ofUnits
  by_cases hlt : units < bound
  · rw [dif_pos ⟨hlt, h⟩, Nat.min_eq_left (Nat.le_of_lt hlt)]
    rfl
  · have hle : bound ≤ units := Nat.le_of_not_lt hlt
    rw [dif_neg (fun hr => hlt hr.1), if_pos hle, Nat.min_eq_right hle]
    rfl

theorem position?_ofRatio (negative : Bool) (num den : Nat) :
    (ofRatio negative num den).position? =
      some (signed negative (min (nearestUnits num den) bound)) :=
  position?_ofUnits (nearestUnits_mod_gap num den) negative

theorem exists_position?_ofInt (i : Int) : ∃ p, (ofInt i).position? = some p := by
  rw [ofInt, position?_ofRatio]
  exact ⟨_, rfl⟩

theorem position?_eq_none_iff {x : Binary64} : x.position? = none ↔ x.isNaN = true := by
  cases x <;> simp [position?, isNaN]

/-! ## Whole numbers -/

/-- A natural rounded to 53 significant bits, a tie to the even neighbour. -/
def rounded (n : Nat) : Nat := roundQuotient n (gap n) * gap n

def roundedInt (i : Int) : Int := signed (decide (i < 0)) (rounded i.natAbs)

theorem rounded_of_mod {n : Nat} (h : n % gap n = 0) : rounded n = n := by
  have hn : n / gap n * gap n = n := Nat.div_mul_cancel (Nat.dvd_of_mod_eq_zero h)
  calc
    rounded n = roundQuotient (n / gap n * gap n) (gap n) * gap n := by rw [hn, rounded]
    _ = n / gap n * gap n := by rw [roundQuotient_mul_self _ (gap_pos n)]
    _ = n := hn

theorem rounded_of_le {n : Nat} (h : n ≤ 2 ^ 53) : rounded n = n := by
  have hgrid := mod_gap_eq_zero h 0
  rw [Nat.pow_zero, Nat.mul_one] at hgrid
  exact rounded_of_mod hgrid

theorem rounded_mul_two_pow (n k : Nat) : rounded (n * 2 ^ k) = rounded n * 2 ^ k := by
  by_cases hsmall : n ≤ 2 ^ 53
  · rw [rounded_of_mod (mod_gap_eq_zero hsmall k), rounded_of_le hsmall]
  · have hzero : n ≠ 0 := by omega
    have hlog : 53 ≤ n.log2 := (Nat.le_log2 hzero).mpr (Nat.le_of_not_le hsmall)
    have hgap : gap (n * 2 ^ k) = gap n * 2 ^ k := by
      have hexp : n.log2 + k - 52 = n.log2 - 52 + k := by omega
      rw [gap_eq, gap_eq, log2_mul_two_pow hzero, hexp, Nat.pow_add]
    rw [rounded, hgap, roundQuotient_mul_right _ _ (Nat.two_pow_pos k), rounded, Nat.mul_assoc]

theorem exists_one_eq : ∃ k, one = 2 ^ k := by
  unfold one
  generalize 1074 = k
  exact ⟨k, rfl⟩

theorem one_pos : 0 < one := by
  obtain ⟨k, hone⟩ := exists_one_eq
  rw [hone]
  exact Nat.two_pow_pos k

theorem nearestUnits_one (n : Nat) : nearestUnits n 1 = rounded n * one := by
  obtain ⟨k, hone⟩ := exists_one_eq
  calc
    nearestUnits n 1 = rounded (n * one) := by
      rw [nearestUnits, Nat.div_one, Nat.one_mul, rounded]
    _ = rounded n * one := by rw [hone, rounded_mul_two_pow]

/-! ## How far rounding goes -/

theorem rounded_near (n : Nat) : 2 * n ≤ 2 * rounded n + gap n ∧ 2 * rounded n ≤ 2 * n + gap n :=
  roundQuotient_near n (gap_pos n)

theorem le_rounded {c n : Nat} (hgrid : gap n ∣ c) (h : c ≤ n) : c ≤ rounded n := by
  have hc : c / gap n * gap n = c := Nat.div_mul_cancel hgrid
  have hmono := roundQuotient_mono (gap_pos n) h
  rw [← hc, roundQuotient_mul_self _ (gap_pos n)] at hmono
  calc
    c = c / gap n * gap n := hc.symm
    _ ≤ rounded n := Nat.mul_le_mul_right _ hmono

theorem rounded_le {c n : Nat} (hgrid : gap n ∣ c) (h : n ≤ c) : rounded n ≤ c := by
  have hc : c / gap n * gap n = c := Nat.div_mul_cancel hgrid
  have hmono := roundQuotient_mono (gap_pos n) h
  rw [← hc, roundQuotient_mul_self _ (gap_pos n)] at hmono
  calc
    rounded n ≤ c / gap n * gap n := Nat.mul_le_mul_right _ hmono
    _ = c := hc

theorem rounded_mono {m n : Nat} (h : m ≤ n) : rounded m ≤ rounded n := by
  by_cases hzero : m = 0
  · rw [hzero, rounded_of_le (Nat.zero_le _)]
    exact Nat.zero_le _
  · have hn : n ≠ 0 := by omega
    have hlog : m.log2 ≤ n.log2 := (Nat.le_log2 hn).mpr (Nat.le_trans (Nat.log2_self_le hzero) h)
    rcases Nat.lt_or_eq_of_le hlog with hlt | heq
    · -- The power of two at the beginning of the larger size is on both grids.
      have hm : m ≤ 2 ^ n.log2 := Nat.le_of_lt ((Nat.log2_lt hzero).mp hlt)
      calc
        rounded m ≤ 2 ^ n.log2 := rounded_le (Nat.pow_dvd_pow 2 (by omega)) hm
        _ ≤ rounded n := le_rounded (Nat.pow_dvd_pow 2 (by omega)) (Nat.log2_self_le hn)
    · have hgap : gap m = gap n := by rw [gap_eq, gap_eq, heq]
      rw [rounded, rounded, hgap]
      exact Nat.mul_le_mul_right _ (roundQuotient_mono (gap_pos n) h)

/-- What is rounded alike lies beyond 2^53. -/
theorem le_of_rounded_eq {m n : Nat} (hlt : m < n) (heq : rounded m = rounded n) : 2 ^ 53 ≤ m := by
  apply Nat.le_of_not_lt
  intro hm
  have hnext : rounded (m + 1) = m + 1 := rounded_of_le hm
  have hself : rounded m = m := rounded_of_le (Nat.le_of_lt hm)
  have hmono : rounded (m + 1) ≤ rounded n := rounded_mono hlt
  omega

/-- Below 2^63 the grid is 1024 wide. -/
theorem gap_le {n : Nat} (h : n < 2 ^ 63) : gap n ≤ 1024 := by
  by_cases hzero : n = 0
  · subst hzero
    decide
  · have hlog : n.log2 < 63 := (Nat.log2_lt hzero).mpr h
    calc
      gap n ≤ 2 ^ 10 := Nat.pow_le_pow_right (by decide) (by omega)
      _ = 1024 := by decide

/-- What is rounded alike lies near, up to 2^63. -/
theorem sub_le_of_rounded_eq {m n : Nat} (hlt : m < n) (hn : n ≤ 2 ^ 63)
    (heq : rounded m = rounded n) : n - m ≤ 1024 := by
  have hm := (rounded_near m).2
  have hgap : gap m ≤ 1024 := gap_le (Nat.lt_of_lt_of_le hlt hn)
  rcases Nat.lt_or_eq_of_le hn with hn | rfl
  · have hnear := (rounded_near n).1
    have hgap' : gap n ≤ 1024 := gap_le hn
    omega
  · have hself : rounded (2 ^ 63) = 2 ^ 63 := rounded_of_mod (by decide)
    omega

/-! ## Integers -/

theorem roundedInt_natCast (n : Nat) : roundedInt n = rounded n := by
  rw [roundedInt, Int.natAbs_natCast, decide_eq_false (by omega)]
  rfl

theorem roundedInt_neg_natCast (n : Nat) : roundedInt (-n) = -rounded n := by
  by_cases hzero : n = 0
  · subst hzero
    rfl
  · rw [roundedInt, Int.natAbs_neg, Int.natAbs_natCast, decide_eq_true (by omega)]
    rfl

/-- Rounding exchanges no integers. -/
theorem roundedInt_mono {a b : Int} (h : a ≤ b) : roundedInt a ≤ roundedInt b := by
  obtain ⟨m, rfl | rfl⟩ := Int.eq_nat_or_neg a <;> obtain ⟨n, rfl | rfl⟩ := Int.eq_nat_or_neg b
  · rw [roundedInt_natCast, roundedInt_natCast]
    exact Int.ofNat_le.mpr (rounded_mono (Int.ofNat_le.mp h))
  · have hm : m = 0 := by omega
    have hn : n = 0 := by omega
    rw [hm, hn]
    decide
  · rw [roundedInt_natCast, roundedInt_neg_natCast]
    omega
  · rw [roundedInt_neg_natCast, roundedInt_neg_natCast]
    exact Int.neg_le_neg (Int.ofNat_le.mpr (rounded_mono (by omega)))

/-- The order of two rounded integers is their own, unless they are rounded alike. -/
theorem compare_roundedInt (a b : Int) :
    compare (roundedInt a) (roundedInt b) =
      if roundedInt a = roundedInt b then .eq else compare a b := by
  split
  · next heq => exact Std.LawfulEqOrd.compare_eq_iff_eq.mpr heq
  · next hne =>
    rcases Int.lt_trichotomy a b with hlt | rfl | hgt
    · have hle : roundedInt a ≤ roundedInt b := roundedInt_mono (Int.le_of_lt hlt)
      rw [Int.compare_eq_lt.mpr hlt, Int.compare_eq_lt.mpr (by omega)]
    · exact absurd rfl hne
    · have hle : roundedInt b ≤ roundedInt a := roundedInt_mono (Int.le_of_lt hgt)
      rw [Int.compare_eq_gt.mpr hgt, Int.compare_eq_gt.mpr (by omega)]

theorem eq_of_rounded_eq {m n : Nat} (hm : m ≤ 2 ^ 63) (hn : n ≤ 2 ^ 63)
    (heq : rounded m = rounded n) :
    m = n ∨ (2 ^ 53 ≤ m ∧ 2 ^ 53 ≤ n ∧ m - n ≤ 1024 ∧ n - m ≤ 1024) := by
  rcases Nat.lt_trichotomy m n with hlt | rfl | hgt
  · have hlarge := le_of_rounded_eq hlt heq
    have hnear := sub_le_of_rounded_eq hlt hn heq
    omega
  · exact .inl rfl
  · have hlarge := le_of_rounded_eq hgt heq.symm
    have hnear := sub_le_of_rounded_eq hgt hm heq.symm
    omega

theorem eq_zero_of_rounded {n : Nat} (h : rounded n = 0) : n = 0 := by
  apply Nat.eq_zero_of_not_pos
  intro hpos
  have hzero : rounded 0 = 0 := rounded_of_le (Nat.zero_le _)
  exact absurd (le_of_rounded_eq hpos (hzero.trans h.symm)) (by decide)

/-- Integers of 64 bits that are rounded alike are equal, or they are large and near. -/
theorem eq_of_roundedInt_eq {a b : Int} (ha : a.natAbs ≤ 2 ^ 63) (hb : b.natAbs ≤ 2 ^ 63)
    (heq : roundedInt a = roundedInt b) :
    a = b ∨ (2 ^ 53 ≤ a.natAbs ∧ 2 ^ 53 ≤ b.natAbs ∧ (a - b).natAbs ≤ 1024) := by
  obtain ⟨m, rfl | rfl⟩ := Int.eq_nat_or_neg a <;> obtain ⟨n, rfl | rfl⟩ := Int.eq_nat_or_neg b <;>
    simp only [roundedInt_natCast, roundedInt_neg_natCast, Int.natAbs_neg, Int.natAbs_natCast]
      at ha hb heq ⊢
  · have h := eq_of_rounded_eq ha hb (by omega)
    omega
  · have hm := eq_zero_of_rounded (n := m) (by omega)
    have hn := eq_zero_of_rounded (n := n) (by omega)
    omega
  · have hm := eq_zero_of_rounded (n := m) (by omega)
    have hn := eq_zero_of_rounded (n := n) (by omega)
    omega
  · have h := eq_of_rounded_eq ha hb (by omega)
    omega

theorem signed_mul (negative : Bool) (m c : Nat) :
    signed negative (m * c) = signed negative m * c := by
  cases negative with
  | true => rw [signed, if_pos rfl, signed, if_pos rfl, Int.natCast_mul, Int.neg_mul]
  | false => rfl

theorem natAbs_signed (negative : Bool) (m : Nat) : (signed negative m).natAbs = m := by
  cases negative with
  | true => exact (Int.natAbs_neg _).trans (Int.natAbs_natCast m)
  | false => exact Int.natAbs_natCast m

theorem decide_signed_neg (negative : Bool) {m : Nat} (hm : 0 < m) :
    decide (signed negative m < 0) = negative := by
  cases negative with
  | true => exact decide_eq_true (by rw [signed, if_pos rfl]; omega)
  | false => exact decide_eq_false (by rw [signed, if_neg (by decide)]; omega)

theorem exists_whole {x : Binary64} {i : Int} (h : x.integer? = some i) :
    ∃ (negative : Bool) (n : Nat) (hn : Representable (n * one)),
      x = .finite negative (n * one) hn ∧ i = signed negative n := by
  cases x with
  | nan | infinite => cases h
  | finite negative units hr =>
    rw [integer?] at h
    split at h
    · rename_i hwhole
      have hunits : units / one * one = units := Nat.div_mul_cancel (Nat.dvd_of_mod_eq_zero hwhole)
      cases h
      refine ⟨negative, units / one, hunits.symm ▸ hr, ?_, rfl⟩
      simp only [hunits]
    · cases h

theorem position?_of_integer? {x : Binary64} {i : Int} (h : x.integer? = some i) :
    x.position? = some (i * one) := by
  obtain ⟨negative, n, hn, rfl, rfl⟩ := exists_whole h
  rw [position?, signed_mul]

theorem nearestUnits_one_lt_bound {n : Nat} (h : n ≤ 2 ^ 63) : nearestUnits n 1 < bound := by
  -- 2^63 is on the grid, so rounding does not pass it.
  have hrounded : rounded n ≤ 2 ^ 63 := by
    calc
      rounded n ≤ rounded (2 ^ 63) := rounded_mono h
      _ = 2 ^ 63 := rounded_of_mod (by decide)
  calc
    nearestUnits n 1 = rounded n * one := nearestUnits_one n
    _ ≤ 2 ^ 63 * one := Nat.mul_le_mul_right _ hrounded
    _ < bound := by decide +kernel

theorem isFinite_ofInt {i : Int} (h : i.natAbs ≤ 2 ^ 63) : (ofInt i).isFinite = true := by
  rw [ofInt, ofRatio, ofUnits, dif_pos ⟨nearestUnits_one_lt_bound h, nearestUnits_mod_gap ..⟩]
  rfl

theorem position?_ofInt {i : Int} (h : i.natAbs ≤ 2 ^ 63) :
    (ofInt i).position? = some (roundedInt i * one) := by
  have hbound := Nat.le_of_lt (nearestUnits_one_lt_bound h)
  rw [ofInt, position?_ofRatio, Nat.min_eq_left hbound, nearestUnits_one, signed_mul, roundedInt]

theorem compare_mul_right (a b : Int) {c : Int} (hc : 0 < c) :
    compare (a * c) (b * c) = compare a b := by
  rcases Int.lt_trichotomy a b with hlt | rfl | hgt
  · rw [Int.compare_eq_lt.mpr hlt, Int.compare_eq_lt.mpr (Int.mul_lt_mul_of_pos_right hlt hc)]
  · rw [Int.compare_eq_eq.mpr rfl, Int.compare_eq_eq.mpr rfl]
  · rw [Int.compare_eq_gt.mpr hgt, Int.compare_eq_gt.mpr (Int.mul_lt_mul_of_pos_right hgt hc)]

/-- The numbers nearest to two integers of 64 bits are ordered as the rounded integers are. -/
theorem compare?_ofInt {a b : Int} (ha : a.natAbs ≤ 2 ^ 63) (hb : b.natAbs ≤ 2 ^ 63) :
    compare? (ofInt a) (ofInt b) = some (compare (roundedInt a) (roundedInt b)) := by
  have hone : (0 : Int) < one := Int.natCast_pos.mpr one_pos
  rw [compare?, position?_ofInt ha, position?_ofInt hb]
  exact congrArg some (compare_mul_right _ _ hone)

end Binary64

end SqlTemplate
