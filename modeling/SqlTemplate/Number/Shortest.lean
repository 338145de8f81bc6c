import SqlTemplate.Number.Numeral
/-!
Writing floating-point numbers with the fewest digits that read back. `Shortest.decimal` selects
the digits, `Spelling` records how a text lays them out, and `Spelling.write` joins the two.
-/

namespace SqlTemplate

namespace Shortest

def digitCount (n : Nat) : Nat := if n = 0 then 0 else (Nat.toDigits 10 n).length

/-- The least `k` such that the magnitude is below `10^k`, for a magnitude other than zero. The
factor 10^400 makes the floor of the least magnitude positive and moves no power of ten. -/
def scale (units : Nat) : Int := digitCount (units * Nat.pow 10 400 / Binary64.one) - 400

/-- Numerator and denominator of `units` measured in steps of `10^exponent`. -/
def inSteps (units : Nat) (exponent : Int) : Nat × Nat :=
  if 0 ≤ exponent then (units, Binary64.one * Nat.pow 10 exponent.toNat)
  else (units * Nat.pow 10 (-exponent).toNat, Binary64.one)

/-- Whether the decimal reads back as this magnitude. -/
def readsBack (units : Nat) (d : Decimal) : Bool :=
  Binary64.ofDecimal false d == Binary64.ofUnits false units

/-- The decimal next to the magnitude on the grid of `10^exponent` that reads back, the nearer one
if both neighbours do. At the same distance `evenTie` prefers even digits, else the upper one. -/
def onGrid? (evenTie : Bool) (units : Nat) (exponent : Int) : Option Decimal :=
  let (num, den) := inSteps units exponent
  let low := num / den
  let below : Decimal := ⟨low, exponent⟩
  let above : Decimal := ⟨low + 1, exponent⟩
  match readsBack units below, readsBack units above with
  | false, false => none
  | true, false => some below
  | false, true => some above
  | true, true =>
    let twice := 2 * (num % den)
    if twice < den then some below
    else if den < twice then some above
    else if evenTie && low % 2 = 0 then some below
    else some above

/-- The first decimal that reads back on the grids of `1, 2, …` digits. -/
def search (evenTie : Bool) (units : Nat) (k : Int) : Nat → Nat → Option Decimal
  | _, 0 => none
  | n, tries + 1 =>
    match onGrid? evenTie units (k - n) with
    | some d => some d
    | none => search evenTie units k (n + 1) tries

/-- The magnitude itself as a decimal: 1 unit is 5^1074 times 10^-1074. -/
def exact (units : Nat) : Decimal := ⟨units * Nat.pow 5 1074, -1074⟩

/-- The decimal without zeros at the end of its digits. -/
def stripped (d : Decimal) : Decimal :=
  let rec strip : Nat → Decimal → Decimal
    | 0, d => d
    | n + 1, d =>
      if d.digits ≠ 0 ∧ d.digits % 10 = 0 then strip n ⟨d.digits / 10, d.exponent + 1⟩ else d
  strip (digitCount d.digits) d

/-- The decimal with the fewest digits that reads back as this magnitude. Seventeen digits are
enough; were they not, the magnitude itself is written. -/
def decimal (evenTie : Bool) (units : Nat) : Decimal :=
  if units = 0 then ⟨0, 0⟩
  else stripped ((search evenTie units (scale units) 1 17).getD (exact units))

end Shortest

/-- How a text lays out a number: from which decimal exponent of the leading digit on and up to
which it is written without an exponent, whether a whole one ends in `.0`, and whether two equally
near candidates are told apart by even digits or upwards. Without bounds no exponent is written. -/
structure Spelling where
  plainFrom : Option Int
  plainUpTo : Option Int
  pointZero : Bool
  evenTie : Bool

namespace Spelling

/-- The digits with the point at the place that the exponent of the last digit gives. -/
def plain (s : Spelling) (digits : List Char) (exponent : Int) : List Char :=
  if 0 ≤ exponent then
    digits ++ List.replicate exponent.toNat '0' ++ (if s.pointZero then ['.', '0'] else [])
  else
    let places := (-exponent).toNat
    if places < digits.length then
      digits.take (digits.length - places) ++ '.' :: digits.drop (digits.length - places)
    else '0' :: '.' :: (List.replicate (places - digits.length) '0' ++ digits)

/-- The first digit, the others after a point, and the signed exponent of the first. -/
def scientific (digits : List Char) (lead : Int) : List Char :=
  let mantissa := match digits with
    | [] => []
    | [d] => [d]
    | d :: ds => d :: '.' :: ds
  mantissa ++ 'e' :: (if lead < 0 then '-' else '+') :: Nat.toDigits 10 lead.natAbs

/-- A magnitude, its sign left out. -/
def magnitude (s : Spelling) (units : Nat) : List Char :=
  let d := Shortest.decimal s.evenTie units
  let digits := Nat.toDigits 10 d.digits
  let lead := d.exponent + (digits.length : Int) - 1
  if s.plainFrom.all (· ≤ lead) && s.plainUpTo.all (lead ≤ ·) then s.plain digits d.exponent
  else scientific digits lead

def write (s : Spelling) : Binary64 → List Char
  | .nan => ['N', 'a', 'N']
  | .infinite negative => (if negative then ['-'] else []) ++ ['i', 'n', 'f']
  | .finite negative units _ => (if negative then ['-'] else []) ++ s.magnitude units

end Spelling

end SqlTemplate
