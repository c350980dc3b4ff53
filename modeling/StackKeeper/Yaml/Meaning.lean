import StackKeeper.Json.Basic
import StackKeeper.Yaml.Node

/-!
# What YAML scalars mean

A plain scalar without a tag is null, a boolean, a number or a text, by its spelling alone. Numbers
with superfluous zeros in front are texts. A core tag fixes the type; other tags have no meaning
here.
-/

namespace StackKeeper.Yaml

inductive Meaning where
  | null
  | bool (b : Bool)
  | integer (i : Int)
  /-- A whole number of more than 64 bits. -/
  | wide (i : Int)
  | float (x : Decimal.Binary64)
  | notFinite
  | text (s : String)
  deriving Inhabited

def isNull (s : String) : Bool := s == "~" || s == "null" || s == "Null" || s == "NULL"

def bool? (s : String) : Option Bool :=
  if s == "true" || s == "True" || s == "TRUE" then some true
  else if s == "false" || s == "False" || s == "FALSE" then some false
  else none

def digits? (base : Nat) (cs : List Char) : Option Nat :=
  let step (n : Nat) (c : Char) : Option Nat :=
    (hexValue? c).bind fun d => if d < base then some (n * base + d) else none
  if cs.isEmpty then none else cs.foldlM step 0

/-- Whether digits open with a zero that does not count. -/
def hasSpareZero (cs : List Char) : Bool :=
  let cs := match cs with
    | '-' :: rest => rest
    | '+' :: rest => rest
    | cs => cs
  match cs with
  | '0' :: rest => !rest.isEmpty && rest.all Char.isDigit
  | _ => false

/-- Digits after the mark of a base, or decimal digits. -/
def magnitude? (whole cs : List Char) : Option Nat :=
  let marked := match cs with
    | '0' :: 'x' :: rest => digits? 16 rest
    | '0' :: 'o' :: rest => digits? 8 rest
    | '0' :: 'b' :: rest => digits? 2 rest
    | _ => none
  marked.or (if hasSpareZero whole then none else digits? 10 cs)

def integer? (cs : List Char) : Option Meaning :=
  match cs with
  | '-' :: rest =>
    (magnitude? cs rest).bind fun n =>
      if n ≤ Nat.pow 2 63 then some (.integer (-(n : Int)))
      else if n ≤ Nat.pow 2 127 then some (.wide (-(n : Int))) else none
  | _ =>
    let body := match cs with
      | '+' :: rest => rest
      | cs => cs
    (magnitude? cs body).bind fun n =>
      if n < Nat.pow 2 64 then some (.integer n)
      else if n < Nat.pow 2 128 then some (.wide n) else none

/-- The decimal notation of a number: sign, digits, point, digits, exponent. -/
def decimal? (cs : List Char) : Option Decimal.Binary64 :=
  let (negative, cs) := match cs with
    | '-' :: rest => (true, rest)
    | '+' :: rest => (false, rest)
    | cs => (false, cs)
  let whole := cs.takeWhile Char.isDigit
  let rest := cs.dropWhile Char.isDigit
  let (fraction, rest) := match rest with
    | '.' :: rest => (rest.takeWhile Char.isDigit, rest.dropWhile Char.isDigit)
    | rest => ([], rest)
  if whole.isEmpty && fraction.isEmpty then none
  else
    let m := (digits? 10 (whole ++ fraction)).getD 0
    let exponent? : Option Int := match rest with
      | [] => some 0
      | e :: rest =>
        if e == 'e' || e == 'E' then
          match rest with
          | '-' :: rest => (digits? 10 rest).map fun n => -(n : Int)
          | '+' :: rest => (digits? 10 rest).map fun n => (n : Int)
          | rest => (digits? 10 rest).map fun n => (n : Int)
        else none
    exponent?.map fun e =>
      Decimal.Binary64.ofDecimal negative m (max (-100000) (min 100000 (e - fraction.length)))

def float? (s : String) : Option Meaning :=
  let cs := s.toList
  let positive := match cs with
    | '+' :: rest => rest
    | cs => cs
  let isSigned := match positive with
    | '+' :: _ => true
    | '-' :: _ => positive.length < cs.length
    | _ => false
  if isSigned then none
  else if [".inf", ".Inf", ".INF"].contains (String.ofList positive) then some .notFinite
  else if ["-.inf", "-.Inf", "-.INF", ".nan", ".NaN", ".NAN"].contains s then some .notFinite
  else match decimal? positive with
    | some x => if x.isFinite then some (.float x) else none
    | none => none

def plainMeaning (s : String) : Meaning :=
  if s.isEmpty || isNull s then .null
  else match bool? s with
    | some b => .bool b
    | none =>
      match integer? s.toList with
      | some m => m
      | none => if hasSpareZero s.toList then .text s else (float? s).getD (.text s)

def coreTag (name : String) : String := "tag:yaml.org,2002:" ++ name

def meaning (text : String) (style : Style) (tag : Option String) : Except Fault Meaning :=
  match tag with
  | none => .ok (if style == .plain then plainMeaning text else .text text)
  | some tag =>
    if tag == coreTag "bool" then
      ((bool? text).map .bool).elim (.error (.unsupported "a boolean")) .ok
    else if tag == coreTag "int" then
      (integer? text.toList).elim (.error (.unsupported "an integer")) .ok
    else if tag == coreTag "float" then (float? text).elim (.error (.unsupported "a float")) .ok
    else if tag == coreTag "null" then
      if isNull text then .ok .null else .error (.unsupported "null")
    else if tag.toList.head? == some '!' then .error (.unsupported "a tag")
    else .ok (.text text)

/-- A tag that no plain value can carry. -/
def checkTag : Option String → Except Fault Unit
  | some tag => if tag.toList.head? == some '!' then .error (.unsupported "a tag") else .ok ()
  | none => .ok ()

mutual

/-- A node as JSON, with keys taken by their text. -/
def toJson : Yaml → Except Fault Json
  | .scalar text style tag => do
    match ← meaning text style tag with
    | .null => return .null
    | .bool b => return .bool b
    | .integer i => return .int i
    | .wide _ => throw (.unsupported "an integer of this size")
    | .float x => return .number (.float x)
    | .notFinite => return .null
    | .text s => return .string s
  | .sequence items tag => do
    checkTag tag
    return .array (← toJsonItems items)
  | .mapping entries tag => do
    checkTag tag
    return .object (← toJsonMembers entries)

def toJsonItems : List Yaml → Except Fault (List Json)
  | [] => .ok []
  | n :: rest => do return (← n.toJson) :: (← toJsonItems rest)

def toJsonMembers : List (Yaml × Yaml) → Except Fault (List (String × Json))
  | [] => .ok []
  | (.scalar key _ _, n) :: rest => do return (key, ← n.toJson) :: (← toJsonMembers rest)
  | _ :: _ => .error (.unsupported "a collection as a key")

end

/-- The document of a text as JSON in key order; a text without document is null. -/
def readValue (s : String) : Except Fault Json := do
  match ← document? s with
  | some n => return (← n.toJson).canonical
  | none => return .null

end StackKeeper.Yaml
