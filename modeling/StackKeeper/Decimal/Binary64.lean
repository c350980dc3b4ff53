/-!
# Binary floating-point numbers by their bits

A number of 64 bits is kept as the word itself, so equality is decidable and tells the two zeros
apart. Arithmetic goes through the processor's type; everything about digits is exact arithmetic
on naturals.
-/

namespace StackKeeper.Decimal

/-- A floating-point number, as its 64 bits. -/
structure Binary64 where
  bits : UInt64
  deriving DecidableEq, Inhabited

namespace Binary64

def ofFloat (x : Float) : Binary64 := ⟨x.toBits⟩

/-- Whether the sign bit is set; so it is for negative zero. -/
def isNegative (x : Binary64) : Bool := x.bits.toNat / Nat.pow 2 63 == 1

def exponentField (x : Binary64) : Nat := x.bits.toNat / Nat.pow 2 52 % Nat.pow 2 11

def fractionField (x : Binary64) : Nat := x.bits.toNat % Nat.pow 2 52

def isFinite (x : Binary64) : Bool := x.exponentField != 2047

/-- A finite number's magnitude is `significand * 2 ^ (scale - 1074)`. -/
def significand (x : Binary64) : Nat :=
  if x.exponentField = 0 then x.fractionField else Nat.pow 2 52 + x.fractionField

def scale (x : Binary64) : Nat := x.exponentField - 1

/-- The number nearest to `m * 10 ^ e`, with the given sign. -/
def ofDecimal (negative : Bool) (m : Nat) (e : Int) : Binary64 :=
  let x := if e < 0 then Float.ofScientific m true e.natAbs else Float.ofScientific m false e.natAbs
  ofFloat (if negative then -x else x)

end Binary64

end StackKeeper.Decimal
