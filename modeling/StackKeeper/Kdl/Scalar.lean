import StackKeeper.Kdl.Space

/-!
# Strings and numbers of KDL

A string is bare, quoted or raw; the last two may run over several lines, which then lose the
indentation of the closing quotes. Numbers are decimal, hexadecimal, octal or binary. Words that
look like keywords are no bare strings: keywords start with a hash.
-/

namespace StackKeeper.Kdl

inductive Value where
  | string (s : String)
  | integer (i : Int)
  /-- A number that is not given as an integer. -/
  | real
  | bool (b : Bool)
  | null
  deriving DecidableEq, Repr, Inhabited

/-! ## Quoted strings -/

inductive Item where
  /-- A character, and whether it stands for itself. -/
  | char (c : Char) (plain : Bool)
  | newline
  deriving DecidableEq, Repr, Inhabited

/-- The characters that a letter behind a backslash stands for. -/
def escapes : List (Char × Char) :=
  [('"', '"'), ('\\', '\\'), ('b', '\x08'), ('f', '\x0c'), ('n', '\n'), ('r', '\r'), ('t', '\t'),
    ('s', ' ')]

def hexDigit? (c : Char) : Option Nat :=
  if c.isDigit then some (c.toNat - '0'.toNat)
  else if 'a' ≤ c ∧ c ≤ 'f' then some (c.toNat - 'a'.toNat + 10)
  else if 'A' ≤ c ∧ c ≤ 'F' then some (c.toNat - 'A'.toNat + 10)
  else none

/-- The character of one to six hexadecimal digits that a brace ends. -/
def codePoint? (value count : Nat) : List Char → Option (Char × List Char)
  | [] => none
  | c :: rest =>
    if c = '\x7d' then
      if count = 0 ∨ ¬ value.isValidChar then none else some (Char.ofNat value, rest)
    else
      match hexDigit? c with
      | some d => if count < 6 then codePoint? (16 * value + d) (count + 1) rest else none
      | none => none

def escaped? : List Char → Option (Char × List Char)
  | 'u' :: '\x7b' :: rest => codePoint? 0 0 rest
  | c :: rest => (escapes.lookup c).map fun d => (d, rest)
  | [] => none

/-- The items of a quoted string up to its closing quotes, and the text after these. -/
def items (long : Bool) : Nat → List Char → Option (List Item × List Char)
  | 0, _ => none
  | fuel + 1, cs =>
    let more (item : Item) (rest : List Char) : Option (List Item × List Char) :=
      (items long fuel rest).map fun (l, after) => (item :: l, after)
    match cs with
    | [] => none
    | '"' :: rest =>
      if !long then some ([], rest)
      else match rest with
        | '"' :: '"' :: after => some ([], after)
        | _ => more (.char '"' true) rest
    | '\\' :: rest =>
      let after := rest.dropWhile fun c => isSpace c || isNewline c
      if after.length < rest.length then items long fuel after
      else match escaped? rest with
        | some (c, after) => more (.char c false) after
        | none => none
    | c :: rest =>
      match afterNewline? cs with
      | some after => if long then more .newline after else none
      | none => if isForbidden c then none else more (.char c true) rest

def rawItems (closing : List Char) (long : Bool) : Nat → List Char → Option (List Item × List Char)
  | 0, _ => none
  | fuel + 1, cs =>
    if closing.isPrefixOf cs then some ([], cs.drop closing.length)
    else
      let more (item : Item) (rest : List Char) : Option (List Item × List Char) :=
        (rawItems closing long fuel rest).map fun (l, after) => (item :: l, after)
      match cs with
      | [] => none
      | c :: rest =>
        match afterNewline? cs with
        | some after => if long then more .newline after else none
        | none => if isForbidden c then none else more (.char c true) rest

/-! ## Strings over several lines -/

def linesOf : List Item → List (List Item)
  | [] => [[]]
  | .newline :: rest => [] :: linesOf rest
  | i :: rest =>
    match linesOf rest with
    | [] => [[i]]
    | line :: more => (i :: line) :: more

def Item.isSpace : Item → Bool
  | .char c plain => plain && Kdl.isSpace c
  | .newline => false

def Item.char? : Item → Option Char
  | .char c _ => some c
  | .newline => none

/-- A line without the given indentation. Of a line of blanks nothing is left. -/
def unindent? (indent line : List Item) : Option (List Char) :=
  if line.all Item.isSpace then some []
  else if indent.isPrefixOf line then some ((line.drop indent.length).filterMap Item.char?)
  else none

/-- The text of lines that the indentation of the last one is taken from. -/
def unindented? (body : List Item) : Option (List Char) := do
  let lines := linesOf body
  let indent ← lines.getLast?
  guard (indent.all Item.isSpace)
  return ['\n'].intercalate (← lines.dropLast.mapM (unindent? indent))

/-! ## Strings -/

def quoted? : List Char → Option (String × List Char)
  | '"' :: '"' :: '"' :: rest => do
    let body ← afterNewline? rest
    let (body, after) ← items true (body.length + 1) body
    return (String.ofList (← unindented? body), after)
  | '"' :: rest => do
    let (body, after) ← items false (rest.length + 1) rest
    return (String.ofList (body.filterMap Item.char?), after)
  | _ => none

/-- A raw string with the given number of hashes. -/
def raw? (hashes : Nat) : List Char → Option (String × List Char)
  | '"' :: '"' :: '"' :: rest => do
    let body ← afterNewline? rest
    let closing := ['"', '"', '"'] ++ List.replicate hashes '#'
    let (body, after) ← rawItems closing true (body.length + 1) body
    return (String.ofList (← unindented? body), after)
  | '"' :: rest => do
    let closing := '"' :: List.replicate hashes '#'
    let (body, after) ← rawItems closing false (rest.length + 1) rest
    return (String.ofList (body.filterMap Item.char?), after)
  | _ => none

def isBare (c : Char) : Bool :=
  !(isSpace c || isNewline c || isForbidden c ||
    ['\\', '/', '(', ')', '\x7b', '\x7d', ';', '[', ']', '"', '#', '='].contains c)

def keywords : List String := ["true", "false", "null", "inf", "-inf", "nan"]

def looksNumeric (cs : List Char) : Bool :=
  let unsigned := match cs with
    | '+' :: rest => rest
    | '-' :: rest => rest
    | _ => cs
  match unsigned with
  | '.' :: c :: _ => c.isDigit
  | c :: _ => c.isDigit
  | [] => false

def bare? (cs : List Char) : Option (String × List Char) :=
  let word := cs.takeWhile isBare
  if word.isEmpty || looksNumeric word || keywords.contains (String.ofList word) then none
  else some (String.ofList word, cs.drop word.length)

def string? (cs : List Char) : Option (String × List Char) :=
  match cs with
  | '"' :: _ => quoted? cs
  | '#' :: _ =>
    let hashes := (cs.takeWhile (· == '#')).length
    raw? hashes (cs.drop hashes)
  | _ => bare? cs

/-! ## Numbers and keywords -/

/-- The digits of a base at the start of a text, with underscores between and after them. -/
def digits? (isDigit : Char → Bool) (cs : List Char) : Option (List Char × List Char) :=
  match cs with
  | [] => none
  | c :: _ =>
    if isDigit c then
      let run := cs.takeWhile fun c => isDigit c || c == '_'
      some (run.filter (· != '_'), cs.drop run.length)
    else none

def valueOf (base : Nat) (digits : List Char) : Nat :=
  digits.foldl (fun v c => base * v + (hexDigit? c).getD 0) 0

def signed (negative : Bool) (n : Nat) : Int := if negative then -(n : Int) else n

/-- An integer that fits into 128 bits. -/
def integer? (i : Int) : Option Value :=
  if -(Nat.pow 2 127 : Int) ≤ i ∧ i < Nat.pow 2 127 then some (.integer i) else none

def afterFraction (cs : List Char) : List Char :=
  match cs with
  | '.' :: rest => ((digits? Char.isDigit rest).map (·.2)).getD cs
  | _ => cs

def afterExponent (cs : List Char) : List Char :=
  let digitsAfter (rest : List Char) := ((digits? Char.isDigit rest).map (·.2)).getD cs
  match cs with
  | c :: rest =>
    if c == 'e' || c == 'E' then
      match rest with
      | '+' :: r => digitsAfter r
      | '-' :: r => digitsAfter r
      | _ => digitsAfter rest
    else cs
  | [] => []

def decimal? (negative : Bool) (cs : List Char) : Option (Value × List Char) := do
  let (whole, rest) ← digits? Char.isDigit cs
  let after := afterExponent (afterFraction rest)
  if after.length < rest.length then return (.real, after)
  else return (← integer? (signed negative (valueOf 10 whole)), rest)

def based? (negative : Bool) (base : Nat) (isDigit : Char → Bool) (cs : List Char) :
    Option (Value × List Char) := do
  let (digits, rest) ← digits? isDigit cs
  return (← integer? (signed negative (valueOf base digits)), rest)

def unsigned? (negative : Bool) : List Char → Option (Value × List Char)
  | '0' :: 'x' :: rest => based? negative 16 (fun c => (hexDigit? c).isSome) rest
  | '0' :: 'o' :: rest => based? negative 8 (fun c => '0' ≤ c && c ≤ '7') rest
  | '0' :: 'b' :: rest => based? negative 2 (fun c => c == '0' || c == '1') rest
  | cs => decimal? negative cs

def number? : List Char → Option (Value × List Char)
  | '+' :: rest => unsigned? false rest
  | '-' :: rest => unsigned? true rest
  | cs => unsigned? false cs

def hashWords : List (String × Value) :=
  [("true", .bool true), ("false", .bool false), ("null", .null), ("inf", .real), ("-inf", .real),
    ("nan", .real)]

/-- A word behind a hash. -/
def keyword? (cs : List Char) : Option (Value × List Char) := do
  let word := cs.takeWhile isBare
  let v ← hashWords.lookup (String.ofList word)
  return (v, cs.drop word.length)

/-- A value without a type. -/
def scalar? (cs : List Char) : Option (Value × List Char) :=
  let text := (string? cs).map fun (s, rest) => (Value.string s, rest)
  match cs with
  | '#' :: rest => if rest.head? == some '"' || rest.head? == some '#' then text else keyword? rest
  | _ => if looksNumeric cs then number? cs else text

end StackKeeper.Kdl
