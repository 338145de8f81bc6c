import SqlTemplate.Json
import SqlTemplate.Text.Search
/-!
Reading a JSON number. One without fraction and exponent that fits 64 bits is an integer. Any other
is a floating-point number that is not always the nearest: of its digits only those count that fit
a 64-bit significand, which is rounded once as it becomes a floating-point number and once more as
it is scaled by a power of ten.
-/

namespace SqlTemplate.Json

def maxSignificand : Nat := Nat.pow 2 64 - 1

structure Lexeme where
  negative : Bool
  whole : List Char
  fraction : Option (List Char)
  exponent : Option (Bool × List Char)

/-- Appends digits to a significand as long as it fits, and counts those left over. -/
def significand (s : Nat) : List Char → Nat × Nat
  | [] => (s, 0)
  | d :: ds =>
    let t := 10 * s + Numeral.digitValue d
    if t ≤ maxSignificand then significand t ds else (s, ds.length + 1)

/-- `x` times a power of ten, rounded once for every factor of 10^308. A number that leaves the
finite range is refused. -/
def scaled (x : Binary64) (exponent : Int) : Option Binary64 :=
  if _h : exponent < -308 then
    if x.isZero then some x
    else scaled (x.dividedBy (.ofDecimal false ⟨1, 308⟩)) (exponent + 308)
  else if 308 < exponent then (if x.isZero then some x else none)
  else if exponent < 0 then some (x.dividedBy (.ofDecimal false ⟨1, -exponent⟩))
  else
    let y := x.times (.ofDecimal false ⟨1, exponent⟩)
    if y.isFinite then some y else none
termination_by (-exponent).toNat
decreasing_by omega

def clamped (i : Int) : Int := max Int32.minValue.toInt (min Int32.maxValue.toInt i)

/-- The magnitude of a significand times a power of ten, with the exponent as written added. An
exponent beyond 32 bits makes zero, or is refused if it is positive and the significand is not
zero. -/
def magnitude (s : Nat) (shift : Int) (exponent : Option (Bool × List Char)) : Option Binary64 :=
  match exponent with
  | none => scaled (.ofInt s) shift
  | some (negative, digits) =>
    let e := Numeral.value digits
    if e < Nat.pow 2 31 then scaled (.ofInt s) (clamped (if negative then shift - e else shift + e))
    else if s ≠ 0 ∧ !negative then none
    else some (.ofInt 0)

/-- The number that a lexeme denotes, if it is in range. -/
def Lexeme.json? (l : Lexeme) : Option Json :=
  let (s, excess) := significand 0 l.whole
  match l.fraction, l.exponent, excess with
  | none, none, 0 =>
    if !l.negative then some (.int s)
    else if s = 0 ∨ Nat.pow 2 63 < s then some (.float (Binary64.ofInt s).neg)
    else some (.int (-s))
  | fraction, exponent, excess =>
    let digits := fraction.getD []
    let (t, unread) := significand s digits
    let shift := (excess : Int) - (digits.length - unread : Nat)
    (magnitude t shift exponent).map fun x => .float (if l.negative then x.neg else x)

/-- The digits after a point, if one stands in front; a point without digits is refused. -/
def fraction? : List Char → Option (Option (List Char) × List Char)
  | '.' :: cs =>
    if (cs.takeWhile Numeral.isDigit).isEmpty then none
    else some (some (cs.takeWhile Numeral.isDigit), cs.dropWhile Numeral.isDigit)
  | cs => some (none, cs)

/-- The exponent, if one stands in front; one without digits is refused. -/
def exponent? : List Char → Option (Option (Bool × List Char) × List Char)
  | c :: cs =>
    if c == 'e' || c == 'E' then
      let (negative, digits) := Numeral.sign cs
      if (digits.takeWhile Numeral.isDigit).isEmpty then none
      else
        some (some (negative, digits.takeWhile Numeral.isDigit), digits.dropWhile Numeral.isDigit)
    else some (none, c :: cs)
  | [] => some (none, [])

/-- The number in front of a text: a zero or digits that do not start with one, and what follows
it. -/
def lexeme? (cs : List Char) : Option (Lexeme × List Char) :=
  let (negative, cs) := match cs with
    | '-' :: r => (true, r)
    | r => (false, r)
  let whole := cs.takeWhile Numeral.isDigit
  if whole.isEmpty || (whole.head? == some '0' && 1 < whole.length) then none
  else
    (fraction? (cs.dropWhile Numeral.isDigit)).bind fun (fraction, r) =>
      (exponent? r).map fun (exponent, r) => (⟨negative, whole, fraction, exponent⟩, r)

theorem length_sign (cs : List Char) : (Numeral.sign cs).2.length ≤ cs.length := by
  unfold Numeral.sign; split <;> simp

theorem length_fraction? {cs r : List Char} {f : Option (List Char)}
    (h : fraction? cs = some (f, r)) : r.length ≤ cs.length := by
  unfold fraction? at h
  split at h
  · split at h
    · simp at h
    · simp only [Option.some.injEq, Prod.mk.injEq] at h
      rw [← h.2]
      exact Nat.le_succ_of_le (Text.length_dropWhile_le ..)
  · simp only [Option.some.injEq, Prod.mk.injEq] at h
    simp [h.2]

theorem length_exponent? {cs r : List Char} {e : Option (Bool × List Char)}
    (h : exponent? cs = some (e, r)) : r.length ≤ cs.length := by
  unfold exponent? at h
  split at h
  · next c cs =>
    simp only at h
    split at h
    · split at h
      · simp at h
      · simp only [Option.some.injEq, Prod.mk.injEq] at h
        rw [← h.2]
        have h1 := length_sign cs
        have h2 := Text.length_dropWhile_le Numeral.isDigit (Numeral.sign cs).2
        simp only [List.length_cons]
        omega
    · simp only [Option.some.injEq, Prod.mk.injEq] at h
      simp [← h.2]
  · simp only [Option.some.injEq, Prod.mk.injEq] at h
    simp [← h.2]

theorem length_lexeme? {cs r : List Char} {l : Lexeme} (h : lexeme? cs = some (l, r)) :
    r.length < cs.length := by
  have key : ∀ ds : List Char, ¬ (ds.takeWhile Numeral.isDigit).isEmpty →
      (ds.dropWhile Numeral.isDigit).length < ds.length := by
    intro ds hds
    have := congrArg List.length (List.takeWhile_append_dropWhile (p := Numeral.isDigit) (l := ds))
    have hpos : 0 < (ds.takeWhile Numeral.isDigit).length :=
      List.length_pos_iff.2 fun h0 => hds (by simp [h0])
    simp only [List.length_append] at this
    omega
  have tail : ∀ (ds : List Char) (n : Bool), ds.length ≤ cs.length →
      (if (ds.takeWhile Numeral.isDigit).isEmpty ||
          ((ds.takeWhile Numeral.isDigit).head? == some '0' &&
            1 < (ds.takeWhile Numeral.isDigit).length) then none
        else
          (fraction? (ds.dropWhile Numeral.isDigit)).bind fun (fraction, r) =>
            (exponent? r).map fun (exponent, r) =>
              ((⟨n, ds.takeWhile Numeral.isDigit, fraction, exponent⟩ : Lexeme), r)) = some (l, r) →
      r.length < cs.length := by
    intro ds n hle h
    split at h
    · simp at h
    · next hw =>
      obtain ⟨⟨f, r1⟩, hf, h⟩ := Option.bind_eq_some_iff.1 h
      obtain ⟨⟨e, r2⟩, he, h⟩ := Option.map_eq_some_iff.1 h
      simp only [Prod.mk.injEq] at h
      have h1 := length_fraction? hf
      have h2 := length_exponent? he
      have h3 := key ds fun h0 => hw (by simp [h0])
      rw [← h.2]
      omega
  unfold lexeme? at h
  split at h
  next n r' heq =>
    split at heq
    · simp only [Prod.mk.injEq] at heq
      obtain ⟨rfl, rfl⟩ := heq
      exact tail _ _ (by simp) h
    · simp only [Prod.mk.injEq] at heq
      obtain ⟨rfl, rfl⟩ := heq
      exact tail _ _ (Nat.le_refl _) h

end SqlTemplate.Json
