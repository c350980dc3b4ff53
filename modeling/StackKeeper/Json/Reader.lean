import StackKeeper.Json.Basic

/-!
# Reading JSON

A reader of the JSON grammar that takes no more than the grammar allows: no raw control characters
in strings, no lone surrogates, no leading zeros, no text after the value, and at most 127 levels
of nesting. Whole numbers that fit into 64 bits stay whole; every other number is scaled in
floating-point arithmetic by a power of ten.

`Json.read` keeps members as they stand in the text; `Json.readValue` puts them into key order.
-/

namespace StackKeeper.Json

inductive Fault where
  | endOfText
  | unexpected (c : Char)
  | controlCharacter
  | badEscape
  | loneSurrogate
  | badNumber
  | numberOutOfRange
  | tooDeep
  | trailing
  deriving DecidableEq, Repr

def Fault.message : Fault → String
  | .endOfText => "the text ends within a value"
  | .unexpected c => s!"unexpected character {c}"
  | .controlCharacter => "control character in a string"
  | .badEscape => "unknown escape in a string"
  | .loneSurrogate => "half of a surrogate pair in a string"
  | .badNumber => "malformed number"
  | .numberOutOfRange => "number out of range"
  | .tooDeep => "nesting is too deep"
  | .trailing => "text after the value"

def isSpace (c : Char) : Bool := c == ' ' || c == '\n' || c == '\t' || c == '\r'

def skipSpace (cs : List Char) : List Char := cs.dropWhile isSpace

def digit? (c : Char) : Option Nat :=
  if '0' ≤ c ∧ c ≤ '9' then some (c.toNat - 48) else none

def hexDigit? (c : Char) : Option Nat :=
  if '0' ≤ c ∧ c ≤ '9' then some (c.toNat - 48)
  else if 'a' ≤ c ∧ c ≤ 'f' then some (c.toNat - 87)
  else if 'A' ≤ c ∧ c ≤ 'F' then some (c.toNat - 55)
  else none

def readFourHex : List Char → Except Fault (Nat × List Char)
  | a :: b :: c :: d :: rest =>
    match hexDigit? a, hexDigit? b, hexDigit? c, hexDigit? d with
    | some a, some b, some c, some d => .ok (((a * 16 + b) * 16 + c) * 16 + d, rest)
    | _, _, _, _ => .error .badEscape
  | _ => .error .endOfText

/-- The character of a `\u` escape, one unit or a pair of surrogates. -/
def readUnicode (cs : List Char) : Except Fault (Char × List Char) := do
  let (n, rest) ← readFourHex cs
  if 0xDC00 ≤ n && n ≤ 0xDFFF then .error .loneSurrogate
  else if 0xD800 ≤ n && n ≤ 0xDBFF then
    match rest with
    | '\\' :: 'u' :: rest =>
      let (m, rest) ← readFourHex rest
      if 0xDC00 ≤ m && m ≤ 0xDFFF then
        .ok (Char.ofNat (0x10000 + (n - 0xD800) * 0x400 + (m - 0xDC00)), rest)
      else .error .loneSurrogate
    | _ => .error .loneSurrogate
  else .ok (Char.ofNat n, rest)

def simpleEscape? : Char → Option Char
  | '"' => some '"'
  | '\\' => some '\\'
  | '/' => some '/'
  | 'b' => some '\x08'
  | 'f' => some '\x0c'
  | 'n' => some '\n'
  | 'r' => some '\r'
  | 't' => some '\t'
  | _ => none

/-- The rest of a string after its opening quote; `read` holds what came before, reversed. -/
def readStringTail : Nat → List Char → List Char → Except Fault (String × List Char)
  | 0, _, _ => .error .endOfText
  | fuel + 1, read, cs =>
    match cs with
    | [] => .error .endOfText
    | '"' :: rest => .ok (String.ofList read.reverse, rest)
    | '\\' :: 'u' :: rest => do
      let (c, rest) ← readUnicode rest
      readStringTail fuel (c :: read) rest
    | '\\' :: e :: rest =>
      match simpleEscape? e with
      | some c => readStringTail fuel (c :: read) rest
      | none => .error .badEscape
    | ['\\'] => .error .endOfText
    | c :: rest =>
      if c < ' ' then .error .controlCharacter else readStringTail fuel (c :: read) rest

def readString (cs : List Char) : Except Fault (String × List Char) :=
  readStringTail (cs.length + 1) [] cs

/-! ## Numbers -/

def maxWhole : Nat := Nat.pow 2 64 - 1

/-- Digits taken into `m` as long as it fits 64 bits; then the digits that do not count. -/
def takeDigits (m : Nat) : List Char → Nat × Nat × List Char
  | [] => (m, 0, [])
  | c :: rest =>
    match digit? c with
    | none => (m, 0, c :: rest)
    | some d =>
      if m * 10 + d ≤ maxWhole then
        let (m, taken, rest) := takeDigits (m * 10 + d) rest
        (m, taken + 1, rest)
      else (m, 0, c :: rest)

/-- How many digits a text opens with, and what follows them. -/
def skipDigits : List Char → Nat × List Char
  | [] => (0, [])
  | c :: rest =>
    match digit? c with
    | none => (0, c :: rest)
    | some _ => let (n, rest) := skipDigits rest; (n + 1, rest)

/-- `m * 10 ^ e` in steps of floating-point arithmetic: one scaling for exponents up to 308, one
more for each 308 below. -/
def scaleDown (x : Float) (e : Nat) : Nat → Float
  | 0 => x
  | fuel + 1 =>
    if e ≤ 308 then x / Float.ofScientific 1 false e
    else if x == 0 then x
    else scaleDown (x / Float.ofScientific 1 false 308) (e - 308) fuel

def scaled (negative : Bool) (m : Nat) (e : Int) : Except Fault Number :=
  let x := Float.ofNat m
  let result :=
    if e < 0 then some (scaleDown x e.natAbs (e.natAbs / 308 + 1))
    else if e ≤ 308 then
      let y := x * Float.ofScientific 1 false e.toNat
      if y.isInf then none else some y
    else if x == 0 then some x
    else none
  match result with
  | none => .error .numberOutOfRange
  | some y => .ok (.float (.ofFloat (if negative then -y else y)))

def maxExponent : Nat := Nat.pow 2 31 - 1

def readExponent (negative : Bool) (m : Nat) (e : Int) (cs : List Char) :
    Except Fault (Number × List Char) :=
  let (down, cs) := match cs with
    | '+' :: rest => (false, rest)
    | '-' :: rest => (true, rest)
    | cs => (false, cs)
  let digits := cs.takeWhile (fun c => (digit? c).isSome)
  let rest := cs.dropWhile (fun c => (digit? c).isSome)
  if digits.isEmpty then .error (if cs.isEmpty then .endOfText else .badNumber)
  else
    let n := digits.foldl (fun n c => n * 10 + (digit? c).getD 0) 0
    if maxExponent < n then
      if m != 0 && !down then .error .numberOutOfRange
      else (scaled negative 0 0).map (·, rest)
    else (scaled negative m (if down then e - n else e + n)).map (·, rest)

/-- A number after its whole digits, `skipped` of which did not go into `m`. -/
def readFraction (negative : Bool) (m skipped : Nat) (cs : List Char) :
    Except Fault (Number × List Char) :=
  match cs with
  | '.' :: rest => do
    let (m', taken, rest') := takeDigits m rest
    let (beyond, rest') := skipDigits rest'
    if taken + beyond = 0 then .error (if rest'.isEmpty then .endOfText else .badNumber)
    else
      let e : Int := skipped - taken
      match rest' with
      | 'e' :: rest' => readExponent negative m' e rest'
      | 'E' :: rest' => readExponent negative m' e rest'
      | _ => (scaled negative m' e).map (·, rest')
  | 'e' :: rest => readExponent negative m skipped rest
  | 'E' :: rest => readExponent negative m skipped rest
  | _ =>
    if skipped = 0 then
      if negative then
        if m = 0 || Nat.pow 2 63 < m then
          .ok (.float (.ofFloat (-(Float.ofNat m))), cs)
        else .ok (.integer (-(m : Int)), cs)
      else .ok (.integer m, cs)
    else (scaled negative m skipped).map (·, cs)

def readNumber (negative : Bool) (cs : List Char) : Except Fault (Number × List Char) :=
  match cs with
  | [] => .error .endOfText
  | '0' :: c :: rest =>
    if (digit? c).isSome then .error .badNumber else readFraction negative 0 0 (c :: rest)
  | c :: rest =>
    match digit? c with
    | none => .error .badNumber
    | some d =>
      let (m, _, rest) := takeDigits d rest
      let (skipped, rest) := skipDigits rest
      readFraction negative m skipped rest

/-! ## Values -/

def maxDepth : Nat := 127

mutual

/-- The value at the start of a text with no space before it. `depth` levels may still open. -/
def readAny (fuel depth : Nat) (cs : List Char) : Except Fault (Json × List Char) :=
  match fuel with
  | 0 => .error .endOfText
  | fuel + 1 =>
    match cs with
    | [] => .error .endOfText
    | 'n' :: 'u' :: 'l' :: 'l' :: rest => .ok (.null, rest)
    | 't' :: 'r' :: 'u' :: 'e' :: rest => .ok (.bool true, rest)
    | 'f' :: 'a' :: 'l' :: 's' :: 'e' :: rest => .ok (.bool false, rest)
    | '-' :: rest => (readNumber true rest).map fun (n, rest) => (.number n, rest)
    | '"' :: rest => (readString rest).map fun (s, rest) => (.string s, rest)
    | '[' :: rest =>
      match depth with
      | 0 => .error .tooDeep
      | depth + 1 =>
        match skipSpace rest with
        | ']' :: rest => .ok (.array [], rest)
        | rest => (readItems fuel depth rest).map fun (items, rest) => (.array items, rest)
    | '\x7b' :: rest =>
      match depth with
      | 0 => .error .tooDeep
      | depth + 1 =>
        match skipSpace rest with
        | '\x7d' :: rest => .ok (.object [], rest)
        | rest => (readMembers fuel depth rest).map fun (members, rest) => (.object members, rest)
    | c :: rest =>
      if (digit? c).isSome then
        (readNumber false (c :: rest)).map fun (n, rest) => (.number n, rest)
      else .error (.unexpected c)

def readItems (fuel depth : Nat) (cs : List Char) : Except Fault (List Json × List Char) :=
  match fuel with
  | 0 => .error .endOfText
  | fuel + 1 => do
    let (v, rest) ← readAny fuel depth cs
    match skipSpace rest with
    | ',' :: rest =>
      let (items, rest) ← readItems fuel depth (skipSpace rest)
      .ok (v :: items, rest)
    | ']' :: rest => .ok ([v], rest)
    | [] => .error .endOfText
    | c :: _ => .error (.unexpected c)

def readMembers (fuel depth : Nat) (cs : List Char) :
    Except Fault (List (String × Json) × List Char) :=
  match fuel with
  | 0 => .error .endOfText
  | fuel + 1 =>
    match cs with
    | '"' :: rest => do
      let (k, rest) ← readString rest
      match skipSpace rest with
      | ':' :: rest =>
        let (v, rest) ← readAny fuel depth (skipSpace rest)
        match skipSpace rest with
        | ',' :: rest =>
          let (members, rest) ← readMembers fuel depth (skipSpace rest)
          .ok ((k, v) :: members, rest)
        | '\x7d' :: rest => .ok ([(k, v)], rest)
        | [] => .error .endOfText
        | c :: _ => .error (.unexpected c)
      | [] => .error .endOfText
      | c :: _ => .error (.unexpected c)
    | [] => .error .endOfText
    | c :: _ => .error (.unexpected c)

end

/-- The value of a whole text, its members as they stand. -/
def read (s : String) : Except Fault Json := do
  let cs := s.toList
  let (v, rest) ← readAny (2 * cs.length + 2) maxDepth (skipSpace cs)
  if (skipSpace rest).isEmpty then .ok v else .error .trailing

/-- The value of a whole text, the members of its objects in key order. -/
def readValue (s : String) : Except Fault Json := (read s).map canonical

end StackKeeper.Json
