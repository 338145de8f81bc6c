import SqlTemplate.Proofs.Number.Shortest
/-!
The text of whole numbers.

A whole number below 10^15 is written as an integer. From there on its digits are those of the shortest
decimal that reads back, with zeros up to the point, so that other digits than those of the number
itself may be written.

What is proved:
  1. `magnitude_whole`: what is written is the text of a natural that reads back. It is the number itself
     unless it ends in more zeros: the grids are tried from the coarsest on, and on a grid that the number
     stands on no other point is taken (`onGrid?_whole`).
  2. `WrittenFor.eq_of_le`: up to 2^54 this is the number itself, as no other natural that ends in a zero
     reads back.
-/

namespace SqlTemplate

/-! ## Digits -/

theorem Nat.toDigits_mul_ten_pow {n : Nat} (hn : 0 < n) (k : Nat) :
    Nat.toDigits 10 (n * 10 ^ k) = Nat.toDigits 10 n ++ List.replicate k '0' := by
  induction k with
  | zero => simp
  | succ k ih =>
    have hpos : 0 < n * 10 ^ k := Nat.mul_pos hn (Nat.pow_pos (by decide))
    calc
      Nat.toDigits 10 (n * 10 ^ (k + 1)) = Nat.toDigits 10 (10 * (n * 10 ^ k) + 0) := by
        rw [Nat.pow_succ, Nat.add_zero, ← Nat.mul_assoc, Nat.mul_comm 10]
      _ = Nat.toDigits 10 (n * 10 ^ k) ++ ['0'] :=
        (Nat.toDigits_append_toDigits (by decide) hpos (by decide)).symm
      _ = Nat.toDigits 10 n ++ List.replicate (k + 1) '0' := by
        rw [ih, List.append_assoc, List.replicate_succ']

namespace Shortest

theorem digitCount_of_pos {n : Nat} (hn : 0 < n) : digitCount n = (Nat.toDigits 10 n).length :=
  if_neg (Nat.ne_of_gt hn)

theorem digitCount_mul_ten_pow {n : Nat} (hn : 0 < n) (k : Nat) :
    digitCount (n * Nat.pow 10 k) = digitCount n + k := by
  have hpos : 0 < n * 10 ^ k := Nat.mul_pos hn (Nat.pow_pos (by decide))
  change digitCount (n * 10 ^ k) = digitCount n + k
  rw [digitCount_of_pos hpos, digitCount_of_pos hn, Nat.toDigits_mul_ten_pow hn, List.length_append,
    List.length_replicate]

/-! ## The grids -/

theorem scale_whole {n : Nat} (hn : 0 < n) : scale (n * Binary64.one) = digitCount n := by
  have hshift : (400 : Int) = (400 : Nat) := rfl
  unfold scale
  rw [hshift]
  -- The power of ten is not to be formed.
  generalize 400 = k
  rw [Nat.mul_right_comm, Nat.mul_div_cancel _ Binary64.one_pos, digitCount_mul_ten_pow hn]
  omega

/-- A whole decimal reads back as a whole number if it is rounded to it. -/
theorem readsBack_whole {n q e : Nat} (hn : Binary64.Representable (n * Binary64.one)) :
    readsBack (n * Binary64.one) ⟨q, e⟩ = true ↔ Binary64.rounded (q * 10 ^ e) = n := by
  have hquotient : Binary64.ofDecimal false ⟨q, e⟩ =
      Binary64.ofUnits false (Binary64.rounded (q * 10 ^ e) * Binary64.one) := by
    rw [Binary64.ofDecimal_eq, Binary64.ofRatio, ← Binary64.nearestUnits_one]
    simp [Decimal.numerator, Decimal.denominator]
  rw [readsBack_iff, hquotient]
  constructor
  · intro h
    rw [Binary64.ofUnits_of_representable hn] at h
    exact Nat.eq_of_mul_eq_mul_right Binary64.one_pos (Binary64.units_eq_of_ofUnits h)
  · intro h
    rw [h]

theorem rounded_whole {n : Nat} (hn : Binary64.Representable (n * Binary64.one)) :
    Binary64.rounded n = n := by
  have hself := Binary64.rounded_of_mod hn.2
  obtain ⟨k, hone⟩ := Binary64.exists_one_eq
  rw [hone, Binary64.rounded_mul_two_pow] at hself
  exact Nat.eq_of_mul_eq_mul_right (Nat.two_pow_pos k) hself

/-- What is taken for a whole number from a grid of whole numbers: a natural that reads back, and the
number itself if it is on the grid. -/
structure TakenFor (n : Nat) (d : Decimal) (q e : Nat) : Prop where
  eq : d = ⟨q, e⟩
  rounded : Binary64.rounded (q * 10 ^ e) = n
  exact : 10 ^ e ∣ n → q * 10 ^ e = n

variable {evenTie : Bool} {n : Nat}

theorem inSteps_whole (n e : Nat) :
    inSteps (n * Binary64.one) e = (n * Binary64.one, 10 ^ e * Binary64.one) := by
  have hpower : Nat.pow 10 e = 10 ^ e := rfl
  rw [inSteps, if_pos (Int.natCast_nonneg e), Int.toNat_natCast, hpower, Nat.mul_comm Binary64.one]

/-- The point below is taken if it is the magnitude itself, and else one of its two neighbours. -/
theorem onGrid?_cases {units num den : Nat} {exponent : Int} {d : Decimal} (hden : 0 < den)
    (hsteps : inSteps units exponent = (num, den)) (h : onGrid? evenTie units exponent = some d) :
    d = ⟨num / den, exponent⟩ ∨ d = ⟨num / den + 1, exponent⟩ ∧
      ¬(readsBack units ⟨num / den, exponent⟩ = true ∧ num % den = 0) := by
  unfold onGrid? at h
  rw [hsteps] at h
  simp only at h
  split at h
  · cases h
  · cases h
    exact .inl rfl
  · rename_i hbelow _
    cases h
    exact .inr ⟨rfl, fun hself => by rw [hself.1] at hbelow; cases hbelow⟩
  · split at h
    · cases h
      exact .inl rfl
    · rename_i hnear
      have hapart : num % den ≠ 0 := by omega
      split at h
      · cases h
        exact .inr ⟨rfl, fun hself => hapart hself.2⟩
      · split at h <;> cases h
        · exact .inl rfl
        · exact .inr ⟨rfl, fun hself => hapart hself.2⟩

theorem readsBack_of_onGrid?_eq_none {units num den : Nat} {exponent : Int}
    (hsteps : inSteps units exponent = (num, den)) (h : onGrid? evenTie units exponent = none) :
    readsBack units ⟨num / den, exponent⟩ = false := by
  unfold onGrid? at h
  rw [hsteps] at h
  simp only at h
  split at h
  · assumption
  · cases h
  · assumption
  · split at h
    · cases h
    · split at h
      · cases h
      · split at h <;> cases h

theorem onGrid?_whole (hn : Binary64.Representable (n * Binary64.one)) {e : Nat} {d : Decimal}
    (h : onGrid? evenTie (n * Binary64.one) e = some d) : ∃ q, TakenFor n d q e := by
  have hden : 0 < 10 ^ e * Binary64.one :=
    Nat.mul_pos (Nat.pow_pos (by decide)) Binary64.one_pos
  have hread := readsBack_of_onGrid? h
  have hcases := onGrid?_cases hden (inSteps_whole n e) h
  rw [Nat.mul_div_mul_right _ _ Binary64.one_pos, Nat.mul_mod_mul_right] at hcases
  rcases hcases with rfl | ⟨rfl, hnot⟩
  · exact ⟨_, rfl, (readsBack_whole hn).mp hread, Nat.div_mul_cancel⟩
  · refine ⟨_, rfl, (readsBack_whole hn).mp hread, fun hdvd => absurd ?_ hnot⟩
    -- On a grid through the number the point below is the number itself.
    rw [readsBack_whole hn, Nat.div_mul_cancel hdvd, Nat.mod_eq_zero_of_dvd hdvd, Nat.zero_mul]
    exact ⟨rounded_whole hn, rfl⟩

theorem onGrid?_unit (hn : Binary64.Representable (n * Binary64.one)) :
    onGrid? evenTie (n * Binary64.one) (0 : Nat) ≠ none := by
  intro h
  have hbelow := readsBack_of_onGrid?_eq_none (inSteps_whole n 0) h
  rw [Nat.mul_div_mul_right _ _ Binary64.one_pos, Nat.pow_zero, Nat.div_one] at hbelow
  have hself : readsBack (n * Binary64.one) ⟨n, (0 : Nat)⟩ = true := by
    rw [readsBack_whole hn, Nat.pow_zero, Nat.mul_one]
    exact rounded_whole hn
  rw [hself] at hbelow
  cases hbelow

theorem search_whole (hn : Binary64.Representable (n * Binary64.one)) {k m tries : Nat} {d : Decimal}
    (hm : m ≤ k) (h : search evenTie (n * Binary64.one) k m tries = some d) :
    ∃ q e, TakenFor n d q e := by
  induction tries generalizing m with
  | zero => cases h
  | succ tries ih =>
    have hgrid : (k : Int) - m = ((k - m : Nat) : Int) := by omega
    rw [search, hgrid] at h
    split at h
    · rename_i hfound
      cases h
      obtain ⟨q, hq⟩ := onGrid?_whole hn hfound
      exact ⟨q, _, hq⟩
    · rename_i hnone
      -- The grid of the integers is not passed.
      have hne : k - m ≠ 0 := by
        intro hzero
        rw [hzero] at hnone
        exact onGrid?_unit hn hnone
      exact ih (by omega) h

/-! ## Zeros at the end -/

theorem strip_cases (fuel : Nat) (d : Decimal) : ∃ i : Nat,
    d.digits = (stripped.strip fuel d).digits * 10 ^ i ∧
    (stripped.strip fuel d).exponent = d.exponent + i ∧
    (i = fuel ∨ (stripped.strip fuel d).digits = 0 ∨ (stripped.strip fuel d).digits % 10 ≠ 0) := by
  induction fuel generalizing d with
  | zero => exact ⟨0, by simp [stripped.strip]⟩
  | succ fuel ih =>
    rw [stripped.strip]
    split
    · rename_i hzero
      obtain ⟨i, hdigits, hexponent, hend⟩ := ih ⟨d.digits / 10, d.exponent + 1⟩
      simp only at hexponent
      refine ⟨i + 1, ?_, by omega, hend.imp_left (congrArg (· + 1))⟩
      rw [Nat.pow_succ, ← Nat.mul_assoc, ← hdigits]
      exact (Nat.div_mul_cancel (Nat.dvd_of_mod_eq_zero hzero.2)).symm
    · exact ⟨0, by simp, by simp, .inr (by omega)⟩

/-- All zeros at the end of the digits are taken off, and each is one more in the exponent. -/
theorem stripped_cases {d : Decimal} (hd : 0 < d.digits) : ∃ i : Nat,
    d.digits = (stripped d).digits * 10 ^ i ∧ (stripped d).exponent = d.exponent + i ∧
    (stripped d).digits % 10 ≠ 0 := by
  obtain ⟨i, hdigits, hexponent, hend⟩ := strip_cases (digitCount d.digits) d
  have hpos : 0 < (stripped d).digits := by
    rw [hdigits] at hd
    exact Nat.pos_of_mul_pos_right hd
  refine ⟨i, hdigits, hexponent, ?_⟩
  rcases hend with hi | hzero | hlast
  · -- More zeros than digits cannot be taken off.
    have hcount := digitCount_mul_ten_pow hpos i
    rw [show (stripped d).digits * Nat.pow 10 i = d.digits from hdigits.symm,
      digitCount_of_pos hpos] at hcount
    have := Nat.length_toDigits_pos (b := 10) (n := (stripped d).digits)
    omega
  · exact absurd hzero (Nat.ne_of_gt hpos)
  · exact hlast

/-- A decimal of a natural is stripped to one without a point. -/
theorem stripped_whole {d : Decimal} {i j : Nat} (hj : 0 < j) (hdigits : d.digits = j * 10 ^ i)
    (hexponent : d.exponent = -(i : Int)) :
    ∃ e : Nat, (stripped d).exponent = e ∧ (stripped d).digits * 10 ^ e = j := by
  have hd : 0 < d.digits := by
    rw [hdigits]
    exact Nat.mul_pos hj (Nat.pow_pos (by decide))
  obtain ⟨k, hstripped, hk, hlast⟩ := stripped_cases hd
  rcases Nat.lt_or_ge k i with hlt | hle
  · -- With fewer zeros taken off than there are, a zero would be left at the end.
    have hpower : 10 ^ i = 10 ^ (i - k - 1) * 10 * 10 ^ k := by
      rw [← Nat.pow_succ, ← Nat.pow_add]
      congr 1
      omega
    rw [hdigits, hpower, ← Nat.mul_assoc] at hstripped
    have hrest := Nat.eq_of_mul_eq_mul_right (Nat.pow_pos (by decide)) hstripped
    rw [← hrest, ← Nat.mul_assoc, Nat.mul_mod_left] at hlast
    exact absurd rfl hlast
  · refine ⟨k - i, by omega, Nat.eq_of_mul_eq_mul_right (Nat.pow_pos (by decide) : 0 < 10 ^ i) ?_⟩
    rw [Nat.mul_assoc, ← Nat.pow_add, Nat.sub_add_cancel hle, ← hstripped, hdigits]

/-- A natural that is written for a whole number: it reads back, and it is the number itself unless it
ends in more zeros. -/
def WrittenFor (n j : Nat) : Prop :=
  Binary64.rounded j = n ∧ ∃ e, 10 ^ e ∣ j ∧ (10 ^ e ∣ n → j = n)

namespace WrittenFor

variable {j : Nat}

theorem eq_or (h : WrittenFor n j) : j = n ∨ ∃ e, 10 ^ e ∣ j ∧ ¬10 ^ e ∣ n := by
  obtain ⟨_, e, hj, hexact⟩ := h
  by_cases hn : 10 ^ e ∣ n
  · exact .inl (hexact hn)
  · exact .inr ⟨e, hj, hn⟩

/-- Up to 2^54 the grid is two wide, so that a natural that ends in a zero stands on it. -/
theorem eq_of_le (h : WrittenFor n j) (hn : n ≤ 2 ^ 54) : j = n := by
  obtain heq | ⟨e, hj, hnot⟩ := h.eq_or
  · exact heq
  have hten : 10 ∣ j := by
    cases e with
    | zero => exact absurd (Nat.one_dvd n) hnot
    | succ e => exact Nat.dvd_trans (Nat.dvd_mul_left 10 (10 ^ e)) hj
  have hrounded := h.1
  by_cases hle : j ≤ 2 ^ 54
  · have heven : j / 2 * 2 ^ 1 = j := by omega
    have hgrid := Binary64.mod_gap_eq_zero (q := j / 2) (by omega) 1
    rw [heven] at hgrid
    rw [← hrounded, Binary64.rounded_of_mod hgrid]
  · -- Beyond 2^54 the next natural that ends in a zero is rounded upwards.
    have hnext : Binary64.rounded 18014398509481990 = 18014398509481992 := by decide
    have hmono : Binary64.rounded 18014398509481990 ≤ Binary64.rounded j :=
      Binary64.rounded_mono (by omega)
    omega

end WrittenFor

/-- The decimal that is selected for a whole number is a natural. -/
theorem decimal_whole (evenTie : Bool) (hn : Binary64.Representable (n * Binary64.one))
    (hpos : 0 < n) :
    ∃ e : Nat, (decimal evenTie (n * Binary64.one)).exponent = e ∧
      WrittenFor n ((decimal evenTie (n * Binary64.one)).digits * 10 ^ e) := by
  have hunits : n * Binary64.one ≠ 0 := Nat.ne_of_gt (Nat.mul_pos hpos Binary64.one_pos)
  have hcount : 1 ≤ digitCount n := by
    rw [digitCount_of_pos hpos]
    exact Nat.length_toDigits_pos
  rw [decimal, if_neg hunits, scale_whole hpos]
  cases hsearch : search evenTie (n * Binary64.one) (digitCount n) 1 17 with
  | some d =>
    obtain ⟨q, e, rfl, hrounded, hexact⟩ := search_whole hn hcount hsearch
    have hq : 0 < q := by
      apply Nat.pos_of_ne_zero
      rintro rfl
      rw [Nat.zero_mul, Binary64.rounded_of_le (Nat.zero_le _)] at hrounded
      omega
    obtain ⟨i, hdigits, hexponent, _⟩ := stripped_cases (d := ⟨q, e⟩) hq
    have hsame : (stripped ⟨q, e⟩).digits * 10 ^ (e + i) = q * 10 ^ e := by
      rw [Nat.add_comm, Nat.pow_add, ← Nat.mul_assoc, ← hdigits]
    refine ⟨e + i, hexponent, ?_⟩
    rw [Option.getD_some, hsame]
    exact ⟨hrounded, e, Nat.dvd_mul_left .., hexact⟩
  | none =>
    have hdigits : (exact (n * Binary64.one)).digits = n * 10 ^ 1074 := by
      rw [exact, Nat.mul_assoc, ten_pow_eq]
    obtain ⟨e, hexponent, hsame⟩ := stripped_whole hpos hdigits rfl
    refine ⟨e, hexponent, ?_⟩
    rw [Option.getD_none, hsame]
    exact ⟨rounded_whole hn, 0, Nat.one_dvd _, fun _ => rfl⟩

end Shortest

theorem Spelling.magnitude_whole {n : Nat} (hn : Binary64.Representable (n * Binary64.one))
    (hpos : 0 < n) : ∃ j, positional.magnitude (n * Binary64.one) = Nat.toDigits 10 j ∧
      0 < j ∧ Shortest.WrittenFor n j := by
  obtain ⟨e, hexponent, hwritten⟩ := Shortest.decimal_whole false hn hpos
  have hj : 0 < (Shortest.decimal false (n * Binary64.one)).digits * 10 ^ e := by
    apply Nat.pos_of_ne_zero
    intro hzero
    have hrounded := hwritten.1
    rw [hzero, Binary64.rounded_of_le (Nat.zero_le _)] at hrounded
    omega
  refine ⟨_, ?_, hj, hwritten⟩
  rw [magnitude_eq, hexponent, Nat.toDigits_mul_ten_pow (Nat.pos_of_mul_pos_right hj)]
  simp [plain, positional]

end SqlTemplate
