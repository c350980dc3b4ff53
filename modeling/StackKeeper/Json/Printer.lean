import StackKeeper.Json.Basic

/-!
# Writing JSON

`compact` writes a value without white space. `pretty` writes one member or item a line, two spaces
deeper for each level, with nothing between the brackets of an empty array or object.
-/

namespace StackKeeper.Json

def fourHex (n : Nat) : List Char :=
  let digits := Nat.toDigits 16 n
  List.replicate (4 - digits.length) '0' ++ digits

def escapedChar (c : Char) : List Char :=
  if c = '"' then ['\\', '"']
  else if c = '\\' then ['\\', '\\']
  else if c = '\n' then ['\\', 'n']
  else if c = '\r' then ['\\', 'r']
  else if c = '\t' then ['\\', 't']
  else if c = '\x08' then ['\\', 'b']
  else if c = '\x0c' then ['\\', 'f']
  else if c < ' ' then '\\' :: 'u' :: fourHex c.toNat
  else [c]

def stringText (s : String) : List Char := '"' :: s.toList.flatMap escapedChar ++ ['"']

def Number.text : Number → List Char
  | .integer i => if i < 0 then '-' :: Nat.toDigits 10 i.natAbs else Nat.toDigits 10 i.natAbs
  | .float x => if x.isFinite then (Decimal.spelled x).toList else "null".toList

mutual

def compactText : Json → List Char
  | .null => "null".toList
  | .bool true => "true".toList
  | .bool false => "false".toList
  | .number n => n.text
  | .string s => stringText s
  | .array items => '[' :: compactItems items ++ [']']
  | .object members => '\x7b' :: compactMembers members ++ ['\x7d']

def compactItems : List Json → List Char
  | [] => []
  | [v] => compactText v
  | v :: rest => compactText v ++ ',' :: compactItems rest

def compactMembers : List (String × Json) → List Char
  | [] => []
  | [(k, v)] => stringText k ++ ':' :: compactText v
  | (k, v) :: rest => stringText k ++ ':' :: (compactText v ++ ',' :: compactMembers rest)

end

def indent (depth : Nat) : List Char := '\n' :: List.replicate (2 * depth) ' '

mutual

/-- The text of a value whose closing bracket stands at `depth`. -/
def prettyText (depth : Nat) : Json → List Char
  | .array [] => ['[', ']']
  | .object [] => ['\x7b', '\x7d']
  | .array (v :: rest) =>
    '[' :: indent (depth + 1) ++ prettyText (depth + 1) v ++ prettyItems depth rest ++
      (indent depth ++ [']'])
  | .object ((k, v) :: rest) =>
    '\x7b' :: indent (depth + 1) ++ stringText k ++ ':' :: ' ' :: prettyText (depth + 1) v ++
      prettyMembers depth rest ++ (indent depth ++ ['\x7d'])
  | .null => "null".toList
  | .bool true => "true".toList
  | .bool false => "false".toList
  | .number n => n.text
  | .string s => stringText s

def prettyItems (depth : Nat) : List Json → List Char
  | [] => []
  | v :: rest => ',' :: indent (depth + 1) ++ prettyText (depth + 1) v ++ prettyItems depth rest

def prettyMembers (depth : Nat) : List (String × Json) → List Char
  | [] => []
  | (k, v) :: rest =>
    ',' :: indent (depth + 1) ++ stringText k ++ ':' :: ' ' :: prettyText (depth + 1) v ++
      prettyMembers depth rest

end

def compact (v : Json) : String := String.ofList (compactText v)

def pretty (v : Json) : String := String.ofList (prettyText 0 v)

end StackKeeper.Json
