import SqlTemplate.Json.Number
import SqlTemplate.Proofs.Number.Decimal
/-!
Numbers in front of a text.

What is proved:
  1. `lexeme?_append`: a number that is read alone is read in front of every text that does not go
     on with it.
  2. `lexeme?_integerText`, `json?_integer`: the text of an integer of 64 bits, with or without a
     sign, is read as this integer.
-/

namespace SqlTemplate.Json

/-! ## Rests -/

/-- A text that cannot be taken for a part of a number in front of it. -/
def EndsNumber (rest : List Char) : Prop :=
  ∀ c ∈ rest.head?, Numeral.isDigit c = false ∧ c ≠ '.' ∧ c ≠ 'e' ∧ c ≠ 'E'

theorem cut_append {p : Char → Bool} (cs : List Char) {rest : List Char}
    (hrest : ∀ c ∈ rest.head?, p c = false) :
    (cs ++ rest).takeWhile p = cs.takeWhile p ∧
      (cs ++ rest).dropWhile p = cs.dropWhile p ++ rest := by
  induction cs with
  | nil =>
    cases rest with
    | nil => exact ⟨rfl, rfl⟩
    | cons c rest =>
      have hc := hrest c rfl
      simp [hc]
  | cons c cs ih =>
    cases hc : p c <;> simp [hc, ih]

theorem EndsNumber.digits {rest : List Char} (h : EndsNumber rest) :
    ∀ c ∈ rest.head?, Numeral.isDigit c = false := fun c hc => (h c hc).1

theorem fraction?_plain {c : Char} (hc : c ≠ '.') (cs : List Char) :
    fraction? (c :: cs) = some (none, c :: cs) := by
  unfold fraction?
  split
  · rename_i heq
    exact absurd (List.cons.inj heq).1 hc
  · rfl

theorem fraction?_append {cs r rest : List Char} {f : Option (List Char)}
    (hrest : EndsNumber rest) (h : fraction? cs = some (f, r)) :
    fraction? (cs ++ rest) = some (f, r ++ rest) := by
  cases cs with
  | nil =>
    cases h
    cases rest with
    | nil => rfl
    | cons c rest =>
      obtain ⟨-, hpoint, -⟩ := hrest c rfl
      exact fraction?_plain hpoint rest
  | cons c cs =>
    by_cases hc : c = '.'
    · subst hc
      obtain ⟨htake, hdrop⟩ := cut_append cs hrest.digits
      rw [fraction?] at h
      rw [List.cons_append, fraction?, htake, hdrop]
      split at h
      · cases h
      · rename_i hdigits
        cases h
        rw [if_neg hdigits]
    · rw [fraction?_plain hc] at h
      cases h
      exact fraction?_plain hc (cs ++ rest)

theorem sign_append {c : Char} (cs rest : List Char) :
    Numeral.sign (c :: cs ++ rest) =
      ((Numeral.sign (c :: cs)).1, (Numeral.sign (c :: cs)).2 ++ rest) := by
  rw [List.cons_append]
  unfold Numeral.sign
  split <;> simp_all

theorem exponent?_append {cs r rest : List Char} {e : Option (Bool × List Char)}
    (hrest : EndsNumber rest) (h : exponent? cs = some (e, r)) :
    exponent? (cs ++ rest) = some (e, r ++ rest) := by
  cases cs with
  | nil =>
    cases h
    cases rest with
    | nil => rfl
    | cons c rest =>
      obtain ⟨-, -, he, hE⟩ := hrest c rfl
      simp [exponent?, he, hE]
  | cons c cs =>
    rw [exponent?] at h
    rw [List.cons_append, exponent?]
    split at h
    · rename_i hletter
      rw [if_pos hletter]
      cases cs with
      | nil => cases h
      | cons d ds =>
        obtain ⟨htake, hdrop⟩ := cut_append (Numeral.sign (d :: ds)).2 hrest.digits
        simp only at h
        simp only [sign_append, htake, hdrop]
        split at h
        · cases h
        · rename_i hdigits
          cases h
          rw [if_neg hdigits]
    · rename_i hletter
      cases h
      rw [if_neg hletter]
      rfl

/-- A number without its sign in front of a text, and what follows it. -/
def unsigned? (negative : Bool) (cs : List Char) : Option (Lexeme × List Char) :=
  if (cs.takeWhile Numeral.isDigit).isEmpty ||
      (cs.takeWhile Numeral.isDigit).head? == some '0' &&
        1 < (cs.takeWhile Numeral.isDigit).length then none
  else
    (fraction? (cs.dropWhile Numeral.isDigit)).bind fun f =>
      (exponent? f.2).map fun e =>
        (⟨negative, cs.takeWhile Numeral.isDigit, f.1, e.1⟩, e.2)

theorem lexeme?_minus (cs : List Char) : lexeme? ('-' :: cs) = unsigned? true cs := rfl

theorem lexeme?_plain {c : Char} (hc : c ≠ '-') (cs : List Char) :
    lexeme? (c :: cs) = unsigned? false (c :: cs) := by
  unfold lexeme?
  split
  rename_i hsign
  split at hsign
  · rename_i heq
    exact absurd (List.cons.inj heq).1 hc
  · cases hsign
    rfl

theorem unsigned?_append {negative : Bool} {cs r rest : List Char} {l : Lexeme}
    (hrest : EndsNumber rest) (h : unsigned? negative cs = some (l, r)) :
    unsigned? negative (cs ++ rest) = some (l, r ++ rest) := by
  obtain ⟨htake, hdrop⟩ := cut_append cs hrest.digits
  rw [unsigned?] at h
  rw [unsigned?, htake, hdrop]
  split at h
  · cases h
  · rename_i hwhole
    obtain ⟨f, hf, h⟩ := Option.bind_eq_some_iff.mp h
    obtain ⟨e, he, h⟩ := Option.map_eq_some_iff.mp h
    cases h
    rw [if_neg hwhole, fraction?_append hrest hf, Option.bind_some, exponent?_append hrest he,
      Option.map_some]

theorem lexeme?_append {cs r rest : List Char} {l : Lexeme} (hrest : EndsNumber rest)
    (h : lexeme? cs = some (l, r)) : lexeme? (cs ++ rest) = some (l, r ++ rest) := by
  cases cs with
  | nil => cases h
  | cons c cs =>
    by_cases hc : c = '-'
    · subst hc
      rw [lexeme?_minus] at h
      rw [List.cons_append, lexeme?_minus, unsigned?_append hrest h]
    · rw [lexeme?_plain hc] at h
      rw [List.cons_append, lexeme?_plain hc, ← List.cons_append, unsigned?_append hrest h]

theorem head_of_lexeme? {cs r : List Char} {l : Lexeme} (h : lexeme? cs = some (l, r)) :
    ∃ c more, cs = c :: more ∧ (Numeral.isDigit c = true ∨ c = '-') := by
  cases cs with
  | nil => cases h
  | cons c cs =>
    refine ⟨c, cs, rfl, Classical.byContradiction fun hstart => ?_⟩
    obtain ⟨hdigit, hminus⟩ := not_or.mp hstart
    rw [lexeme?_plain hminus, unsigned?, List.takeWhile_cons_of_neg hdigit] at h
    cases h

/-! ## Integers -/

theorem head?_toDigits {n : Nat} (h : 1 < (Nat.toDigits 10 n).length) :
    (Nat.toDigits 10 n).head? ≠ some '0' := by
  induction n using Nat.strongRecOn with
  | ind n ih =>
    by_cases hn : n < 10
    · rw [Nat.toDigits_of_lt_base hn] at h
      exact absurd h (Nat.lt_irrefl 1)
    · have hmore : (Nat.toDigits 10 (n / 10)).head?.isSome = true :=
        List.isSome_head?.mpr Nat.toDigits_ne_nil
      rw [Nat.toDigits_of_base_le (by decide) (by omega), List.head?_append,
        Option.or_of_isSome hmore]
      by_cases hfirst : n / 10 < 10
      · have hdigit : ∀ d < 10, d ≠ 0 → [d.digitChar].head? ≠ some '0' := by decide
        rw [Nat.toDigits_of_lt_base hfirst]
        exact hdigit _ hfirst (by omega)
      · refine ih _ (by omega) ?_
        rw [Nat.toDigits_of_base_le (by decide) (by omega), List.length_append]
        have := List.length_pos_iff.mpr (Nat.toDigits_ne_nil (n := n / 10 / 10) (b := 10))
        simp only [List.length_singleton]
        omega

theorem unsigned?_toDigits (negative : Bool) (n : Nat) :
    unsigned? negative (Nat.toDigits 10 n) =
      some (⟨negative, Nat.toDigits 10 n, none, none⟩, []) := by
  have hdigits : ∀ c ∈ Nat.toDigits 10 n, Numeral.isDigit c = true :=
    fun c => Numeral.isDigit_of_mem_toDigits
  obtain ⟨htake, hdrop⟩ := Numeral.cut_digits [] hdigits nofun
  rw [List.append_nil] at htake hdrop
  have hlead : ¬((Nat.toDigits 10 n).isEmpty ||
      (Nat.toDigits 10 n).head? == some '0' && 1 < (Nat.toDigits 10 n).length) = true := by
    have hzero := head?_toDigits (n := n)
    simp only [List.isEmpty_iff, Nat.toDigits_ne_nil, Bool.or_eq_true, Bool.and_eq_true, beq_iff_eq,
      decide_eq_true_eq, false_or]
    exact fun hlead => hzero hlead.2 hlead.1
  rw [unsigned?, htake, hdrop, if_neg hlead]
  rfl

theorem lexeme?_integerText (i : Int) : lexeme? (integerText i).toList =
    some (⟨decide (i < 0), Nat.toDigits 10 i.natAbs, none, none⟩, []) := by
  unfold integerText
  split
  · rename_i hi
    rw [String.toList_ofList, lexeme?_minus, unsigned?_toDigits, decide_eq_true hi]
  · rename_i hi
    rw [String.toList_ofList, decide_eq_false hi]
    cases hds : Nat.toDigits 10 i.natAbs with
    | nil => exact absurd hds Nat.toDigits_ne_nil
    | cons d ds =>
      have hd : Numeral.isDigit d = true :=
        Numeral.isDigit_of_mem_toDigits (hds ▸ List.mem_cons_self)
      have hminus : d ≠ '-' := by
        rintro rfl
        cases hd
      rw [lexeme?_plain hminus, ← hds, unsigned?_toDigits]

theorem le_ofDigitChars (ds : List Char) (s : Nat) : s ≤ Nat.ofDigitChars 10 ds s := by
  induction ds generalizing s with
  | nil => exact Nat.le_refl s
  | cons d ds ih =>
    rw [Nat.ofDigitChars_cons]
    exact Nat.le_trans (by omega) (ih _)

theorem significand_eq {ds : List Char} {s : Nat} (h : Nat.ofDigitChars 10 ds s ≤ maxSignificand) :
    significand s ds = (Nat.ofDigitChars 10 ds s, 0) := by
  induction ds generalizing s with
  | nil => rfl
  | cons d ds ih =>
    rw [Nat.ofDigitChars_cons] at h ⊢
    have hfits := Nat.le_trans (le_ofDigitChars ds _) h
    exact (if_pos hfits).trans (ih h)

theorem json?_integer {i : Int} (hmin : Int64.minValue.toInt ≤ i) (hmax : i ≤ maxSignificand) :
    (⟨decide (i < 0), Nat.toDigits 10 i.natAbs, none, none⟩ : Lexeme).json? = some (.int i) := by
  have hvalue : Nat.ofDigitChars 10 (Nat.toDigits 10 i.natAbs) 0 = i.natAbs :=
    Numeral.value_toDigits i.natAbs
  have hmaximum : maxSignificand = 18446744073709551615 := rfl
  have hminimum : Int64.minValue.toInt = -9223372036854775808 := rfl
  have hsignificand : significand 0 (Nat.toDigits 10 i.natAbs) = (i.natAbs, 0) := by
    rw [significand_eq (by omega), hvalue]
  have hpower : Nat.pow 2 63 = 9223372036854775808 := rfl
  simp only [Lexeme.json?, hsignificand]
  by_cases hi : i < 0
  · have hrange : ¬(i.natAbs = 0 ∨ Nat.pow 2 63 < i.natAbs) := by omega
    rw [decide_eq_true hi, if_neg (by decide), if_neg hrange]
    congr
    omega
  · rw [decide_eq_false hi, if_pos (by decide)]
    congr
    omega

end SqlTemplate.Json
