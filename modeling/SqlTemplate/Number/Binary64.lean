/-!
Floating-point numbers of 64 bits. A finite one is a sign and a whole number of units, the unit
being the least positive value 2^-1074; which numbers of units exist is said by `Representable`.
Order, integrality and the bit pattern are read off the units.
-/

namespace SqlTemplate

namespace Binary64

/-- The number of units in 1. -/
def one : Nat := Nat.pow 2 1074

/-- One more than the largest finite magnitude could be: the units of 2^1024. -/
def bound : Nat := Nat.pow 2 2098

/-- The distance between neighbouring numbers from the power of two below `units` on. -/
def gap (units : Nat) : Nat := Nat.pow 2 (units.log2 - 52)

/-- At most 53 significant bits, and less than 2^1024. -/
def Representable (units : Nat) : Prop := units < bound ∧ units % gap units = 0

instance (units : Nat) : Decidable (Representable units) := by
  unfold Representable; infer_instance

theorem bound_pos : 0 < bound := by
  unfold bound
  generalize 2098 = n
  exact Nat.two_pow_pos n

theorem representable_zero : Representable 0 := ⟨bound_pos, Nat.zero_mod _⟩

end Binary64

/-- A floating-point number. Zero has two signs, and there is one value that is no number. -/
inductive Binary64 where
  | nan
  | infinite (negative : Bool)
  | finite (negative : Bool) (units : Nat) (representable : Binary64.Representable units)
  deriving DecidableEq

namespace Binary64

instance : Inhabited Binary64 := ⟨.finite false 0 representable_zero⟩

/-- The number of a sign and a magnitude in units, infinite from 2^1024 on. The magnitude is
meant to lie on the grid of its own size; one that does not counts as no number. -/
def ofUnits (negative : Bool) (units : Nat) : Binary64 :=
  if h : Representable units then .finite negative units h
  else if bound ≤ units then .infinite negative
  else .nan

def isFinite : Binary64 → Bool
  | .finite .. => true
  | _ => false

def isNaN : Binary64 → Bool
  | .nan => true
  | _ => false

def isZero : Binary64 → Bool
  | .finite _ units _ => units == 0
  | _ => false

def neg : Binary64 → Binary64
  | .nan => .nan
  | .infinite negative => .infinite (!negative)
  | .finite negative units h => .finite (!negative) units h

def signed (negative : Bool) (magnitude : Nat) : Int :=
  if negative then -(magnitude : Int) else magnitude

/-- The place on the number line in units; the infinities stand just outside the finite range,
and what is no number has no place. -/
def position? : Binary64 → Option Int
  | .nan => none
  | .infinite negative => some (signed negative bound)
  | .finite negative units _ => some (signed negative units)

/-- How two numbers are ordered. Both zeros are equal, and what is no number is not ordered. -/
def compare? (x y : Binary64) : Option Ordering :=
  match x.position?, y.position? with
  | some a, some b => some (compare a b)
  | _, _ => none

def integer? : Binary64 → Option Int
  | .finite negative units _ =>
    if units % one = 0 then some (signed negative (units / one)) else none
  | _ => none

/-- The weight of the exponent in a bit pattern, after 52 bits of fraction. -/
def exponentWeight : Nat := Nat.pow 2 52

def signWeight : Nat := Nat.pow 2 63

/-- The number of a bit pattern: a sign bit, 11 bits of exponent and 52 bits of fraction. -/
def ofBits (bits : UInt64) : Binary64 :=
  let negative := bits.toNat / signWeight == 1
  let exponent := bits.toNat / exponentWeight % 2048
  let fraction := bits.toNat % exponentWeight
  if exponent == 2047 then
    if fraction == 0 then .infinite negative else .nan
  else if exponent == 0 then ofUnits negative fraction
  else ofUnits negative ((exponentWeight + fraction) * Nat.pow 2 (exponent - 1))

/-- The bit pattern; what is no number has the positive quiet one. -/
def toBits : Binary64 → UInt64
  | .nan => 0x7FF8000000000000
  | .infinite negative => word negative (2047 * exponentWeight)
  | .finite negative units _ =>
    if units < exponentWeight then word negative units
    else
      let exponent := units.log2 - 52
      let fraction := units / Nat.pow 2 exponent - exponentWeight
      word negative ((exponent + 1) * exponentWeight + fraction)
where
  /-- A sign bit before the other 63 bits. -/
  word (negative : Bool) (rest : Nat) : UInt64 :=
    UInt64.ofNat ((if negative then signWeight else 0) + rest)

theorem isFinite_neg (x : Binary64) : x.neg.isFinite = x.isFinite := by
  cases x <;> rfl

theorem neg_neg (x : Binary64) : x.neg.neg = x := by
  cases x <;> simp [neg]

end Binary64

end SqlTemplate
