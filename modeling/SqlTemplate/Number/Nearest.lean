import SqlTemplate.Number.Binary64
/-!
Rounding to the nearest 64-bit floating-point number, a tie going to the even neighbour: of a
quotient of naturals, of an integer, of a product and a quotient of such numbers, and of a decimal.
-/

namespace SqlTemplate

/-- A quotient rounded to the nearest natural, a tie to the even one. -/
def roundQuotient (num den : Nat) : Nat :=
  let q := num / den
  let r := num % den
  if 2 * r < den then q
  else if den < 2 * r then q + 1
  else if q % 2 = 0 then q else q + 1

/-- A decimal: a natural times a power of ten. -/
structure Decimal where
  digits : Nat
  exponent : Int
  deriving DecidableEq, Repr

namespace Binary64

/-- The units of the representable magnitude nearest to `num / den`, were there no greatest one. -/
def nearestUnits (num den : Nat) : Nat :=
  let step := gap (num * one / den)
  roundQuotient (num * one) (den * step) * step

/-- The number nearest to `num / den`; a magnitude that rounds to 2^1024 or more is infinite. -/
def ofRatio (negative : Bool) (num den : Nat) : Binary64 :=
  ofUnits negative (nearestUnits num den)

def ofInt (i : Int) : Binary64 := ofRatio (decide (i < 0)) i.natAbs 1

/-- The number nearest to a decimal. Above 10^309 every non-zero decimal is infinite, and where
the digits are too few to reach 10^-399 it is zero; in between the quotient is rounded. -/
def ofDecimal (negative : Bool) (d : Decimal) : Binary64 :=
  if d.digits = 0 then ofUnits negative 0
  else if 309 < d.exponent then .infinite negative
  else if d.exponent < -(400 + d.digits.log2 : Int) then ofUnits negative 0
  else if 0 ≤ d.exponent then ofRatio negative (d.digits * Nat.pow 10 d.exponent.toNat) 1
  else ofRatio negative d.digits (Nat.pow 10 (-d.exponent).toNat)

/-- The product of two finite numbers, rounded. -/
def times : Binary64 → Binary64 → Binary64
  | .finite s a _, .finite t b _ => ofRatio (s != t) (a * b) (one * one)
  | .finite s a _, .infinite t => if a = 0 then .nan else .infinite (s != t)
  | .infinite s, .finite t b _ => if b = 0 then .nan else .infinite (s != t)
  | .infinite s, .infinite t => .infinite (s != t)
  | _, _ => .nan

/-- The quotient of two finite numbers, rounded. -/
def dividedBy : Binary64 → Binary64 → Binary64
  | .finite s a _, .finite t b _ =>
    if b = 0 then (if a = 0 then .nan else .infinite (s != t)) else ofRatio (s != t) a b
  | .finite s _ _, .infinite t => ofUnits (s != t) 0
  | .infinite s, .finite t _ _ => .infinite (s != t)
  | _, _ => .nan

end Binary64

end SqlTemplate
