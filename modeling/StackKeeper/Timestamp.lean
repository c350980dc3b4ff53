import StackKeeper.Text.Blank

/-!
# Moments in UTC

A moment is kept as its calendar fields in UTC, so writing and reading back need no day counts. The
written form is RFC 3339 with `Z`. Reading accepts any offset, blanks between the parts, and a blank
in place of the `T`.
-/

namespace StackKeeper

/-- A day of the Gregorian calendar, extended to all years. -/
structure Date where
  year : Int
  month : Nat
  day : Nat
  deriving DecidableEq, Repr, Inhabited

namespace Date

def isLeapYear (year : Int) : Bool := year % 4 == 0 && (year % 100 != 0 || year % 400 == 0)

def daysIn (year : Int) (month : Nat) : Nat :=
  if month = 2 then (if isLeapYear year then 29 else 28)
  else if month = 4 ∨ month = 6 ∨ month = 9 ∨ month = 11 then 30
  else 31

def yearInRange (year : Int) : Bool := -262143 ≤ year && year ≤ 262142

def isValid (d : Date) : Bool :=
  yearInRange d.year && 1 ≤ d.month && d.month ≤ 12 && 1 ≤ d.day && d.day ≤ daysIn d.year d.month

def next (d : Date) : Date :=
  if d.day < daysIn d.year d.month then { d with day := d.day + 1 }
  else if d.month < 12 then { d with month := d.month + 1, day := 1 }
  else ⟨d.year + 1, 1, 1⟩

def previous (d : Date) : Date :=
  if 1 < d.day then { d with day := d.day - 1 }
  else if 1 < d.month then ⟨d.year, d.month - 1, daysIn d.year (d.month - 1)⟩
  else ⟨d.year - 1, 12, 31⟩

/-- The day that comes so many days after the first of March of the year 0. The count of years
leaves out what leap days add, a period of 400 years at a time. -/
def ofMarchDays (days : Nat) : Date :=
  let period := days / 146097
  let inPeriod := days % 146097
  let year := (inPeriod - inPeriod / 1460 + inPeriod / 36524 - inPeriod / 146096) / 365
  let inYear := inPeriod - (365 * year + year / 4 - year / 100)
  let month := (5 * inYear + 2) / 153
  let day := inYear - (153 * month + 2) / 5 + 1
  let base : Int := 400 * period + year
  if month < 10 then ⟨base, month + 3, day⟩ else ⟨base + 1, month - 9, day⟩

end Date

/-- A moment in UTC. A second of 60 is a leap second. -/
structure Timestamp where
  date : Date
  hour : Nat
  minute : Nat
  second : Nat
  nanosecond : Nat
  deriving DecidableEq, Repr, Inhabited

namespace Timestamp

/-- Days from the first of March of the year 0 to the start of 1970. -/
def epochMarchDays : Nat := 719468

def ofEpoch (seconds nanosecond : Nat) : Timestamp :=
  ⟨Date.ofMarchDays (seconds / 86400 + epochMarchDays), seconds / 3600 % 24, seconds / 60 % 60,
    seconds % 60, nanosecond⟩

/-! ## Writing -/

def padded (width n : Nat) : List Char :=
  let digits := Nat.toDigits 10 n
  List.replicate (width - digits.length) '0' ++ digits

/-- Four digits for years of four digits at most; a sign before all others. -/
def yearText (year : Int) : List Char :=
  if 0 ≤ year ∧ year ≤ 9999 then padded 4 year.natAbs
  else (if year < 0 then '-' else '+') :: padded 4 year.natAbs

def dayText (t : Timestamp) : List Char :=
  yearText t.date.year ++ '-' :: padded 2 t.date.month ++ '-' :: padded 2 t.date.day ++
    'T' :: padded 2 t.hour ++ ':' :: padded 2 t.minute ++ ':' :: padded 2 t.second

/-- The fraction in the fewest groups of three digits that hold it. -/
def fractionText (nanosecond : Nat) : List Char :=
  if nanosecond = 0 then []
  else if nanosecond % 1000000 = 0 then '.' :: padded 3 (nanosecond / 1000000)
  else if nanosecond % 1000 = 0 then '.' :: padded 6 (nanosecond / 1000)
  else '.' :: padded 9 nanosecond

def toText (t : Timestamp) : String :=
  String.ofList (t.dayText ++ fractionText t.nanosecond ++ ['Z'])

def toSecondsText (t : Timestamp) : String := String.ofList (t.dayText ++ ['Z'])

/-! ## Reading -/

inductive Fault where
  | outOfRange
  | invalid
  | tooShort
  | tooLong
  deriving DecidableEq, Repr

def Fault.message : Fault → String
  | .outOfRange => "input is out of range"
  | .invalid => "input contains invalid characters"
  | .tooShort => "premature end of input"
  | .tooLong => "trailing input"

def digit? (c : Char) : Option Nat :=
  if '0' ≤ c ∧ c ≤ '9' then some (c.toNat - 48) else none

def takeNumber : Nat → List Char → Nat → Nat → Nat × Nat × List Char
  | 0, cs, n, count => (n, count, cs)
  | _ + 1, [], n, count => (n, count, [])
  | width + 1, c :: rest, n, count =>
    match digit? c with
    | some d => takeNumber width rest (n * 10 + d) (count + 1)
    | none => (n, count, c :: rest)

def readNumber (width : Nat) (cs : List Char) : Except Fault (Nat × Nat × List Char) :=
  match takeNumber width cs 0 0 with
  | (_, 0, []) => .error .tooShort
  | (_, 0, _ :: _) => .error .invalid
  | result => .ok result

def skipBlanks (cs : List Char) : List Char := cs.dropWhile Text.isBlank

/-- A number between bounds, after blanks. -/
def readField (width low high : Nat) (cs : List Char) : Except Fault (Nat × List Char) := do
  let (n, _, rest) ← readNumber width (skipBlanks cs)
  if low ≤ n ∧ n ≤ high then .ok (n, rest) else .error .outOfRange

def readSeparator (c : Char) (cs : List Char) : Except Fault (List Char) :=
  match skipBlanks cs with
  | [] => .error .tooShort
  | d :: rest => if d = c then .ok rest else .error .invalid

/-- A year: four digits at most, or a sign and any number of digits. -/
def readYear (cs : List Char) : Except Fault (Int × List Char) := do
  let signedYear (negative : Bool) (cs : List Char) : Except Fault (Int × List Char) := do
    let (n, _, rest) ← readNumber cs.length cs
    if n < Nat.pow 2 31 then .ok (if negative then -(n : Int) else n, rest) else .error .outOfRange
  match skipBlanks cs with
  | '-' :: rest => if rest.isEmpty then .error .tooShort else signedYear true rest
  | '+' :: rest => if rest.isEmpty then .error .tooShort else signedYear false rest
  | cs => do
    let (n, _, rest) ← readNumber 4 cs
    .ok (n, rest)

/-- The digits after a point as nanoseconds; digits beyond the ninth do not count. -/
def readFraction (cs : List Char) : Except Fault (Nat × List Char) :=
  match cs with
  | '.' :: rest => do
    let (n, count, rest) ← readNumber 9 rest
    .ok (n * Nat.pow 10 (9 - count), rest.dropWhile fun c => (digit? c).isSome)
  | cs => .ok (0, cs)

def readOffset (cs : List Char) : Except Fault (Int × List Char) := do
  match cs with
  | 'Z' :: rest => .ok (0, rest)
  | 'z' :: rest => .ok (0, rest)
  | [] => .error .tooShort
  | sign :: rest =>
    let negative ←
      if sign = '+' then Except.ok false
      else if sign = '-' ∨ sign = '\u2212' then Except.ok true
      else Except.error Fault.invalid
    match rest with
    | h1 :: h2 :: rest =>
      match digit? h1, digit? h2 with
      | some h1, some h2 =>
        match rest.dropWhile fun c => c = ':' || Text.isBlank c with
        | m1 :: m2 :: rest =>
          match digit? m1, digit? m2 with
          | some m1, some m2 =>
            if 5 < m1 then .error .outOfRange
            else
              let minutes : Int := (h1 * 10 + h2) * 60 + (m1 * 10 + m2)
              .ok (if negative then -minutes else minutes, rest)
          | _, _ => .error .invalid
        | _ => .error .tooShort
      | _, _ => .error .invalid
    | _ => .error .tooShort

/-- The name of UTC in any case, or an offset. -/
def readZone (cs : List Char) : Except Fault (Int × List Char) :=
  match skipBlanks cs with
  | cs@(u :: t :: c :: rest) =>
    if u.toUpper = 'U' ∧ t.toUpper = 'T' ∧ c.toUpper = 'C' then .ok (0, rest) else readOffset cs
  | cs => readOffset cs

/-- A moment given in a zone whose clocks are `offset` minutes ahead of UTC, less than a day. -/
def toUtc (t : Timestamp) (offset : Int) : Timestamp :=
  let minutes : Int := t.hour * 60 + t.minute - offset
  let date :=
    if minutes < 0 then t.date.previous else if 1440 ≤ minutes then t.date.next else t.date
  let minutes := (minutes % 1440).toNat
  { t with date, hour := minutes / 60, minute := minutes % 60 }

def ofText (s : String) : Except Fault Timestamp := do
  let (year, cs) ← readYear s.toList
  let cs ← readSeparator '-' cs
  let (month, cs) ← readField 2 1 12 cs
  let cs ← readSeparator '-' cs
  let (day, cs) ← readField 2 1 31 cs
  let cs ← match cs with
    | [] => Except.error Fault.tooShort
    | c :: rest =>
      if c = 'T' ∨ c = 't' ∨ c = ' ' then Except.ok rest else Except.error Fault.invalid
  let (hour, cs) ← readField 2 0 23 cs
  let cs ← readSeparator ':' cs
  let (minute, cs) ← readField 2 0 59 cs
  let cs ← readSeparator ':' cs
  let (second, cs) ← readField 2 0 60 cs
  let (nanosecond, cs) ← readFraction cs
  let (offset, cs) ← readZone cs
  if !(skipBlanks cs).isEmpty then .error .tooLong
  else
    let date : Date := ⟨year, month, day⟩
    if !date.isValid || offset.natAbs ≥ 1440 then .error .outOfRange
    else
      let t := toUtc ⟨date, hour, minute, second, nanosecond⟩ offset
      if Date.yearInRange t.date.year then .ok t else .error .outOfRange

end Timestamp

end StackKeeper
