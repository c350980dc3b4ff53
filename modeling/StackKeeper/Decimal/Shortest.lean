import StackKeeper.Decimal.Binary64

/-!
# The shortest decimal that reads back

Every finite number is the nearest one to a whole interval of reals. `shortest` finds the fewest
significant digits of a decimal inside that interval and, of those, the decimal nearest to the
number. It is spelled with or without an exponent, as its size is.
-/

namespace StackKeeper.Decimal

/-- A positive number and the ends of the interval that rounds to it, all over `den`. -/
structure Interval where
  low : Nat
  value : Nat
  high : Nat
  den : Nat
  /-- Whether the ends themselves round to the number. -/
  closed : Bool

def Binary64.interval (x : Binary64) : Interval :=
  let m := x.significand
  let q := x.scale
  -- Below a power of two the neighbours are twice as close as above it.
  let below := if x.fractionField = 0 ∧ 1 < x.exponentField then 1 else 2
  let up := Nat.pow 2 (q - 1074)
  { low := (4 * m - below) * up, value := 4 * m * up, high := (4 * m + 2) * up
    den := 4 * Nat.pow 2 (1074 - q), closed := m % 2 == 0 }

/-- The fraction `num / den` in units of `10 ^ p`, as a fraction again. -/
def inUnits (num den : Nat) (p : Int) : Nat × Nat :=
  if 0 ≤ p then (num, den * Nat.pow 10 p.toNat) else (num * Nat.pow 10 (-p).toNat, den)

/-- Whether `d` units of `10 ^ p` lie inside the interval. -/
def Interval.holds (i : Interval) (d : Nat) (p : Int) : Bool :=
  let (low, den) := inUnits i.low i.den p
  let (high, _) := inUnits i.high i.den p
  if i.closed then low ≤ d * den && d * den ≤ high else low < d * den && d * den < high

/-- The exponent `e` with `10 ^ e ≤ num / den < 10 ^ (e + 1)`. -/
def decimalExponent (num den : Nat) : Int :=
  let guess : Int := ((num.log2 : Int) - (den.log2 : Int)) * 30103 / 100000
  let atLeast (e : Int) : Bool := let (n, d) := inUnits num den e; d ≤ n
  if atLeast (guess + 2) then guess + 2
  else if atLeast (guess + 1) then guess + 1
  else if atLeast guess then guess
  else if atLeast (guess - 1) then guess - 1
  else guess - 2

/-- The better of the two neighbours of the value on the grid of `10 ^ p`, if one is inside. -/
def Interval.onGrid (i : Interval) (p : Int) : Option Nat :=
  let (num, den) := inUnits i.value i.den p
  let d := num / den
  let rest := num % den
  match d != 0 && i.holds d p, i.holds (d + 1) p with
  | true, true => some (if 2 * rest < den || (2 * rest == den && d % 2 == 0) then d else d + 1)
  | true, false => some d
  | false, true => some (d + 1)
  | false, false => none

/-- Tries `digits` more digits, starting from the grid of `10 ^ p`. -/
def Interval.search (i : Interval) (p : Int) : Nat → Nat × Int
  | 0 => (i.value / i.den, 0)
  | digits + 1 =>
    match i.onGrid p with
    | some d => (d, p)
    | none => i.search (p - 1) digits

def stripZeros (d : Nat) (p : Int) : Nat → Nat × Int
  | 0 => (d, p)
  | fuel + 1 => if d != 0 && d % 10 == 0 then stripZeros (d / 10) (p + 1) fuel else (d, p)

/-- The digits `d` and exponent `p` of the shortest decimal `d * 10 ^ p` of a finite number. -/
def shortest (x : Binary64) : Nat × Int :=
  if x.significand = 0 then (0, 0) else
    let i := x.interval
    let (d, p) := i.search (decimalExponent i.value i.den) 17
    stripZeros d p 17

def decimalDigits (n : Nat) : List Char := Nat.toDigits 10 n

def zeros (n : Nat) : List Char := List.replicate n '0'

/-- The digits of `d * 10 ^ p` with a point and no exponent; a whole number ends in `.0`. -/
def positionalDigits (d : Nat) (p : Int) : List Char :=
  let digits := decimalDigits d
  let point : Int := digits.length + p
  if 0 ≤ p then digits ++ zeros p.toNat ++ ['.', '0']
  else if 0 < point then digits.take point.toNat ++ '.' :: digits.drop point.toNat
  else '0' :: '.' :: zeros (-point).toNat ++ digits

def scientificDigits (d : Nat) (p : Int) : List Char :=
  let digits := decimalDigits d
  let e : Int := digits.length + p - 1
  let mantissa := match digits with
    | first :: more@(_ :: _) => first :: '.' :: more
    | digits => digits
  let sign := if e < 0 then '-' else '+'
  mantissa ++ 'e' :: sign :: decimalDigits e.natAbs

def signed (x : Binary64) (body : List Char) : List Char :=
  if x.isNegative then '-' :: body else body

/-- A finite number, positional from `1e-5` to below `1e16` and scientific outside. -/
def spelled (x : Binary64) : String :=
  let (d, p) := shortest x
  let point : Int := (decimalDigits d).length + p
  let body := if -5 < point && point ≤ 16 then positionalDigits d p else scientificDigits d p
  String.ofList (signed x body)

end StackKeeper.Decimal
