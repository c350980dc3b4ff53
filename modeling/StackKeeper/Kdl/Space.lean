/-!
# Space between the parts of a KDL document

Blanks, comments and line continuations may stand between the parts of a node; between nodes also
line ends. A block comment may hold others.
-/

namespace StackKeeper.Kdl

def isNewline (c : Char) : Bool :=
  let n := c.toNat
  (0xA ≤ n && n ≤ 0xD) || n == 0x85 || n == 0x2028 || n == 0x2029

/-- The blanks that end no line. -/
def isSpace (c : Char) : Bool :=
  let n := c.toNat
  n == 0x9 || n == 0x20 || n == 0xA0 || n == 0x1680 || (0x2000 ≤ n && n ≤ 0x200A) ||
    n == 0x202F || n == 0x205F || n == 0x3000

/-- Characters that may not stand in a document: controls and marks of direction. -/
def isForbidden (c : Char) : Bool :=
  let n := c.toNat
  n ≤ 0x8 || (0xE ≤ n && n ≤ 0x1F) || n == 0x7F || n == 0x200E || n == 0x200F ||
    (0x202A ≤ n && n ≤ 0x202E) || (0x2066 ≤ n && n ≤ 0x2069) || n == 0xFEFF

/-- The text after a line end, if it opens with one. A return and a line feed are one end. -/
def afterNewline? : List Char → Option (List Char)
  | '\r' :: '\n' :: rest => some rest
  | c :: rest => if isNewline c then some rest else none
  | [] => none

/-- The text after a block comment that is open `depth + 1` times. -/
def afterBlock? (depth : Nat) : List Char → Option (List Char)
  | [] => none
  | '*' :: '/' :: rest =>
    match depth with
    | 0 => some rest
    | depth + 1 => afterBlock? depth rest
  | '/' :: '*' :: rest => afterBlock? (depth + 1) rest
  | _ :: rest => afterBlock? depth rest

def afterLineComment : List Char → List Char
  | [] => []
  | c :: rest =>
    match afterNewline? (c :: rest) with
    | some after => after
    | none => afterLineComment rest

/-- The text after blanks and block comments. None if a comment does not end. -/
def skipBlanks : Nat → List Char → Option (List Char)
  | 0, cs => some cs
  | fuel + 1, cs =>
    match cs with
    | '/' :: '*' :: rest => (afterBlock? 0 rest).bind (skipBlanks fuel)
    | c :: rest => if isSpace c then skipBlanks fuel rest else some cs
    | [] => some []

/-- The text after the line end that a backslash joins to its line. -/
def afterContinuation? (fuel : Nat) (cs : List Char) : Option (List Char) := do
  let rest ← skipBlanks fuel cs
  match rest with
  | [] => some []
  | '/' :: '/' :: after => some (afterLineComment after)
  | _ => afterNewline? rest

def skipNodeSpace : Nat → List Char → Option (List Char)
  | 0, cs => some cs
  | fuel + 1, cs =>
    match cs with
    | '\\' :: rest => (afterContinuation? fuel rest).bind (skipNodeSpace fuel)
    | '/' :: '*' :: rest => (afterBlock? 0 rest).bind (skipNodeSpace fuel)
    | c :: rest => if isSpace c then skipNodeSpace fuel rest else some cs
    | [] => some []

def skipLineSpace : Nat → List Char → Option (List Char)
  | 0, cs => some cs
  | fuel + 1, cs =>
    match cs with
    | '\\' :: rest => (afterContinuation? fuel rest).bind (skipLineSpace fuel)
    | '/' :: '*' :: rest => (afterBlock? 0 rest).bind (skipLineSpace fuel)
    | '/' :: '/' :: rest => skipLineSpace fuel (afterLineComment rest)
    | c :: rest => if isSpace c || isNewline c then skipLineSpace fuel rest else some cs
    | [] => some []

def nodeSpace (cs : List Char) : Option (List Char) := skipNodeSpace cs.length cs

def lineSpace (cs : List Char) : Option (List Char) := skipLineSpace cs.length cs

end StackKeeper.Kdl
