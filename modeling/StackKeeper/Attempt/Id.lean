import StackKeeper.Json.Decode
import StackKeeper.Text.Blank

/-!
# Names of attempts

An attempt is known by a UUID: 32 hexadecimal digits, written in five groups with hyphens between
them. Reading also accepts the digits alone, braces around the groups, and `urn:uuid:` in front.
-/

namespace StackKeeper.Attempt

/-- The digits of a UUID, in lower case. -/
structure Id where
  digits : List Char
  deriving DecidableEq, Repr, Inhabited

namespace Id

inductive Fault where
  | character (c : Char) (position : Nat)
  | simpleLength (length : Nat)
  | groupCount (count : Nat)
  | groupLength (group expected length : Nat)
  deriving DecidableEq, Repr, Inhabited

def Fault.message : Fault → String
  | character c position =>
    let form := "an optional prefix of `urn:uuid:` followed by [0-9a-fA-F-]"
    s!"invalid character: expected {form}, found `{c}` at {position}"
  | simpleLength length =>
    s!"invalid length: expected length 32 for simple format, found {length}"
  | groupCount count => s!"invalid group count: expected 5, found {count}"
  | groupLength group expected length =>
    s!"invalid group length in group {group}: expected {expected}, found {length}"

def groups : List Nat := [8, 4, 4, 4, 12]

def isHex (c : Char) : Bool :=
  c.isDigit || ('a' ≤ c && c ≤ 'f') || ('A' ≤ c && c ≤ 'F')

/-- Cuts a text into pieces of the given lengths. -/
def cut : List Nat → List Char → List (List Char)
  | [], _ => []
  | n :: rest, cs => cs.take n :: cut rest (cs.drop n)

/-- The id with a hyphen between two groups. -/
def toText (a : Id) : String :=
  String.ofList (['-'].intercalate (cut groups a.digits))

def version (a : Id) : Nat :=
  match a.digits[12]? with
  | some c => if c.isDigit then c.toNat - '0'.toNat else c.toNat - 'a'.toNat + 10
  | none => 0

def urn : List Char := "urn:uuid:".toList

/-- The groups of a text without what may stand around them. -/
def core (cs : List Char) : List Char :=
  match cs with
  | '\x7b' :: rest => if rest.getLast? == some '\x7d' then rest.dropLast else cs
  | _ => if urn.isPrefixOf cs then cs.drop urn.length else cs

def isGrouped (cs : List Char) : Bool :=
  let pieces := Text.splitOnChar '-' cs
  pieces.map List.length == groups && pieces.all (·.all isHex)

/-- The first character that is neither a digit nor a hyphen, with its byte position. -/
def strayCharacter (position : Nat) : List Char → Option Fault
  | [] => none
  | c :: rest =>
    if c == '-' || isHex c then strayCharacter (position + c.utf8Size) rest
    else some (.character c (position + 1))

def wrongGroup (index : Nat) : List Nat → List (List Char) → Option Fault
  | n :: expected, piece :: rest =>
    if piece.length = n then wrongGroup (index + 1) expected rest
    else some (.groupLength index n piece.length)
  | _, _ => none

def fault (cs : List Char) : Fault :=
  let inner := core cs
  let pieces := Text.splitOnChar '-' inner
  match strayCharacter (if inner = cs then 0 else if cs.head? == some 'u' then urn.length else 1)
    inner with
  | some f => f
  | none =>
    if pieces.length = 1 ∧ inner = cs then .simpleLength cs.length
    else if pieces.length ≠ 5 then .groupCount pieces.length
    else (wrongGroup 0 groups pieces).getD (.groupCount pieces.length)

def ofText (s : String) : Except Fault Id :=
  let cs := s.toList
  if cs.length = 32 ∧ cs.all isHex then .ok ⟨cs.map Char.toLower⟩
  else if isGrouped (core cs) then .ok ⟨((core cs).filter (· != '-')).map Char.toLower⟩
  else .error (fault cs)

def decode : Json.Decoder Id
  | .string s => (ofText s).mapError fun f => .refused ("UUID parsing failed: " ++ f.message)
  | v => Json.wrongType v "a UUID string"

end Id

end StackKeeper.Attempt
