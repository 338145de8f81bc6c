import SqlTemplate.Proofs.Number.Decimal
import SqlTemplate.Value
/-!
Numbers that are written read back.

What is proved:
  1. `ofDecimal_decimal`: the digits that are selected for a magnitude are converted back to it. Most
     are tried before they are taken (`readsBack_of_search`); where none is found the magnitude is
     written in full, which needs no rounding (`readsBack_exact`), and zeros are taken off at the end
     (`ofDecimal_stripped`).
  2. `isNumeral_plain`: laid out without an exponent they are digits with at most one point, which
     read as the same decimal (`magnitude?_plain`).
  3. `float?_write`: so the text of a finite number is read as this number, sign included.
-/

namespace SqlTemplate

namespace Binary64

theorem ofUnits_of_representable {units : Nat} (h : Representable units) (negative : Bool) :
    ofUnits negative units = .finite negative units h := dif_pos h

theorem units_eq_of_ofUnits {negative negative' : Bool} {u units : Nat} {h : Representable units}
    (heq : ofUnits negative u = .finite negative' units h) : u = units := by
  unfold ofUnits at heq
  split at heq
  · cases heq
    rfl
  · split at heq <;> cases heq

/-- The sign plays no part in how a decimal is rounded. -/
theorem ofDecimal_of_unsigned {d : Decimal} {units : Nat} {h : Representable units}
    (hd : ofDecimal false d = .finite false units h) (negative : Bool) :
    ofDecimal negative d = .finite negative units h := by
  rw [ofDecimal_eq, ofRatio] at hd ⊢
  rw [units_eq_of_ofUnits hd, ofUnits_of_representable h]

end Binary64

namespace Shortest

/-! ## The digits -/

theorem readsBack_iff {units : Nat} {d : Decimal} :
    readsBack units d = true ↔ Binary64.ofDecimal false d = Binary64.ofUnits false units :=
  beq_iff_eq

theorem readsBack_of_onGrid? {evenTie : Bool} {units : Nat} {exponent : Int} {d : Decimal}
    (h : onGrid? evenTie units exponent = some d) : readsBack units d = true := by
  unfold onGrid? at h
  simp only at h
  split at h
  · cases h
  · cases h
    assumption
  · cases h
    assumption
  · split at h
    · cases h
      assumption
    · split at h
      · cases h
        assumption
      · split at h <;> cases h <;> assumption

theorem readsBack_of_search {evenTie : Bool} {units : Nat} {k : Int} {n tries : Nat} {d : Decimal}
    (h : search evenTie units k n tries = some d) : readsBack units d = true := by
  induction tries generalizing n with
  | zero => cases h
  | succ tries ih =>
    rw [search] at h
    split at h
    · rename_i hgrid
      cases h
      exact readsBack_of_onGrid? hgrid
    · exact ih h

theorem five_pow_pos : 0 < Nat.pow 5 1074 := by decide +kernel

theorem ten_pow_eq : 10 ^ 1074 = Binary64.one * Nat.pow 5 1074 := by decide +kernel

theorem readsBack_exact {units : Nat} (h : Binary64.Representable units) :
    readsBack units (exact units) = true := by
  have hnum : (exact units).numerator = units * Nat.pow 5 1074 := Nat.mul_one _
  have hexp : (-(exact units).exponent).toNat = 1074 := rfl
  have hden : (exact units).denominator = Binary64.one * Nat.pow 5 1074 := by
    rw [Decimal.denominator, hexp, ten_pow_eq]
  rw [readsBack_iff, Binary64.ofDecimal_eq, Binary64.ofRatio, hnum, hden,
    Binary64.nearestUnits_mul_right _ _ five_pow_pos, Binary64.nearestUnits_one_units h.2]

theorem ofDecimal_stripped (negative : Bool) (d : Decimal) :
    Binary64.ofDecimal negative (stripped d) = Binary64.ofDecimal negative d := by
  have hstrip : ∀ (n : Nat) (d : Decimal),
      Binary64.ofDecimal negative (stripped.strip n d) = Binary64.ofDecimal negative d := by
    intro n
    induction n with
    | zero => intro d; rfl
    | succ n ih =>
      intro d
      rw [stripped.strip]
      split
      · rename_i hzero
        have hdigits : d.digits / 10 * 10 = d.digits :=
          Nat.div_mul_cancel (Nat.dvd_of_mod_eq_zero hzero.2)
        rw [ih, ← Binary64.ofDecimal_mul_ten, hdigits]
      · rfl
  exact hstrip _ d

/-- The digits that are selected for a magnitude are converted back to it. -/
theorem ofDecimal_decimal (evenTie negative : Bool) {units : Nat}
    (h : Binary64.Representable units) :
    Binary64.ofDecimal negative (decimal evenTie units) = .finite negative units h := by
  apply Binary64.ofDecimal_of_unsigned
  rw [← Binary64.ofUnits_of_representable h false]
  unfold decimal
  split
  · rename_i hzero
    rw [hzero, Binary64.ofDecimal, if_pos rfl]
  · rw [ofDecimal_stripped, ← readsBack_iff]
    cases hsearch : search evenTie units (scale units) 1 17 with
    | none => exact readsBack_exact h
    | some d => exact readsBack_of_search hsearch

end Shortest

namespace Spelling

open Numeral (isDigit value)

/-! ## The text -/

theorem isDigit_of_mem_zeros {k : Nat} {c : Char} (h : c ∈ List.replicate k '0') :
    isDigit c = true := by
  rw [List.eq_of_mem_replicate h]
  rfl

/-- Digits that are laid out are a whole number, or they stand around a point. -/
theorem plain_cases {ds : List Char} (hne : ds ≠ []) (hds : ∀ c ∈ ds, isDigit c = true) (e : Int) :
    (∃ ws, positional.plain ds e = ws ∧ ws ≠ [] ∧ (∀ c ∈ ws, isDigit c = true) ∧
      0 ≤ e ∧ value ws = value ds * 10 ^ e.toNat) ∨
    (∃ ws fs, positional.plain ds e = ws ++ '.' :: fs ∧ ws ≠ [] ∧
      (∀ c ∈ ws, isDigit c = true) ∧ (∀ c ∈ fs, isDigit c = true) ∧
      e = -(fs.length : Int) ∧ value (ws ++ fs) = value ds) := by
  by_cases hwhole : 0 ≤ e
  · refine .inl ⟨ds ++ List.replicate e.toNat '0', ?_, by simp [hne],
      List.forall_mem_append.mpr ⟨hds, fun c => isDigit_of_mem_zeros⟩, hwhole,
      Numeral.value_append_zeros ds e.toNat⟩
    simp [plain, hwhole, positional]
  · right
    by_cases hinside : (-e).toNat < ds.length
    · -- The point stands among the digits.
      refine ⟨ds.take (ds.length - (-e).toNat), ds.drop (ds.length - (-e).toNat), ?_, ?_,
        fun c hc => hds c (List.mem_of_mem_take hc), fun c hc => hds c (List.mem_of_mem_drop hc),
        ?_, by rw [List.take_append_drop]⟩
      · simp [plain, hwhole, hinside]
      · intro hnil
        have hlength := congrArg List.length hnil
        simp only [List.length_take, List.length_nil] at hlength
        omega
      · rw [List.length_drop]
        omega
    · -- All digits stand behind the point, with zeros in front of them.
      refine ⟨['0'], List.replicate ((-e).toNat - ds.length) '0' ++ ds, ?_, by simp,
        fun c => @isDigit_of_mem_zeros 1 c,
        List.forall_mem_append.mpr ⟨fun c => isDigit_of_mem_zeros, hds⟩, ?_, ?_⟩
      · simp [plain, hwhole, hinside]
      · rw [List.length_append, List.length_replicate]
        omega
      · rw [← List.append_assoc, List.singleton_append, ← List.replicate_succ,
          Numeral.value_zeros_append]

theorem magnitude?_plain {ds : List Char} (hne : ds ≠ []) (hds : ∀ c ∈ ds, isDigit c = true)
    (e : Int) : ∃ d, Numeral.magnitude? (positional.plain ds e) = some d ∧
      ∀ negative, Binary64.ofDecimal negative d = .ofDecimal negative ⟨value ds, e⟩ := by
  rcases plain_cases hne hds e with ⟨ws, hplain, hws, hdigits, he, hvalue⟩ |
    ⟨ws, fs, hplain, hws, hdigits, hfs, he, hvalue⟩
  · refine ⟨_, by rw [hplain, Numeral.magnitude?_digits hws hdigits], fun negative => ?_⟩
    rw [hvalue, Binary64.ofDecimal_whole negative _ he]
  · refine ⟨_, by rw [hplain, Numeral.magnitude?_point hws hdigits hfs], fun negative => ?_⟩
    rw [hvalue, he]

/-- The text of a magnitude: digits with at most one point, which is not in front. -/
def IsNumeral (cs : List Char) : Prop :=
  ∃ c more, cs = c :: more ∧ isDigit c = true ∧ ∀ d ∈ more, isDigit d = true ∨ d = '.'

theorem isNumeral_plain {ds : List Char} (hne : ds ≠ []) (hds : ∀ c ∈ ds, isDigit c = true)
    (e : Int) : IsNumeral (positional.plain ds e) := by
  rcases plain_cases hne hds e with ⟨ws, hplain, hws, hdigits, _⟩ |
    ⟨ws, fs, hplain, hws, hdigits, hfs, _⟩ <;>
    obtain ⟨c, more, rfl⟩ := List.exists_cons_of_ne_nil hws <;>
    obtain ⟨hc, hmore⟩ := List.forall_mem_cons.mp hdigits
  · exact ⟨c, more, hplain, hc, fun d hd => .inl (hmore d hd)⟩
  · refine ⟨c, more ++ '.' :: fs, hplain, hc, List.forall_mem_append.mpr ⟨fun d hd => ?_, ?_⟩⟩
    · exact .inl (hmore d hd)
    · exact List.forall_mem_cons.mpr ⟨.inr rfl, fun d hd => .inl (hfs d hd)⟩

theorem magnitude_eq (units : Nat) : positional.magnitude units =
    positional.plain (Nat.toDigits 10 (Shortest.decimal false units).digits)
      (Shortest.decimal false units).exponent := by
  simp [magnitude, positional]

theorem isNumeral_magnitude (units : Nat) : IsNumeral (positional.magnitude units) := by
  rw [magnitude_eq]
  exact isNumeral_plain Nat.toDigits_ne_nil (fun c => Numeral.isDigit_of_mem_toDigits) _

/-- The text of a finite number is read as the number. -/
theorem float?_write {x : Binary64} (hx : x.isFinite = true) :
    Numeral.float? (positional.write x) = some x := by
  cases x with
  | nan => cases hx
  | infinite negative => cases hx
  | finite negative units h =>
    obtain ⟨c, more, hcs, hc, _⟩ := isNumeral_magnitude units
    have hhead : ∀ d ∈ (positional.magnitude units).head?, isDigit d = true := by
      rw [hcs]
      intro d hd
      cases hd
      exact hc
    obtain ⟨d, hd, hvalue⟩ := magnitude?_plain Nat.toDigits_ne_nil
      (fun c => Numeral.isDigit_of_mem_toDigits) (Shortest.decimal false units).exponent
    rw [← magnitude_eq] at hd
    rw [write, Numeral.float?_signed negative hhead hd, hvalue, Numeral.value_toDigits,
      Shortest.ofDecimal_decimal false negative h]

end Spelling

end SqlTemplate
